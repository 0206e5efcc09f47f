import ClassSurface.Proofs.DocBlock.Grammar
import Mathlib.Data.List.Forall2

/-! # Proofs.DocBlock.Layout — blocks as they are written, and what is read from them

A `Layout` is a block as its author writes it: between `/**` and `*/` stand remarks, then tags. The
words of a tag may run over any number of lines; after a blank line there may be remarks again.

* `tags_layout`: the tags of the text are those of the layout, each with its own words and no
  others.
* `annotations_of_layout`: one annotation is read for each tag that is understood, in order, and it
  is the one that the words of the tag give.
-/

namespace ClassSurface.DocBlock

open Text

/-! ### Layouts -/

abbrev Word := { w : List Char // IsWord w }

def word (s : String) (h : IsWord s.toList := by decide +kernel) : Word := ⟨s.toList, h⟩

/-- Words on one line. -/
def sentence (ws : List Word) : List Char := unwords (ws.map (·.1))

/-- A line between the first and the last, with its decoration. -/
def starred (s : List Char) : List Char := ' ' :: '*' :: ' ' :: s

/-- A line of its own that belongs to no tag. Text does not start like a tag. -/
inductive Remark where
  | blank
  | text (content : List Char) (oneLine : '\n' ∉ content)
    (plain : (trimStart content).head? ≠ some '@')

def Remark.line : Remark → List Char
  | blank => [' ', '*']
  | text content _ _ => starred content

/-- A tag as it is written: its name and its first words on one line, more words on the lines after
it, and then perhaps a blank line and remarks. No line of words ends the block or, after the first,
starts like a tag. -/
structure WrittenTag where
  name : Word
  first : List Word
  more : List (List Word) := []
  gap : Option (List Remark) := none
  more_ne_nil : ∀ ws ∈ more, ws ≠ [] := by decide +kernel
  more_plain : ∀ ws ∈ more, (sentence ws).head? ≠ some '@' := by decide +kernel
  unclosed : ∀ s ∈ ('@' :: sentence (name :: first)) :: more.map sentence, ¬ ['*', '/'] <:+ s := by
    decide +kernel

namespace WrittenTag

/-- All words of the body. -/
def words (t : WrittenTag) : List (List Char) := (t.first ++ t.more.flatten).map (·.1)

def gapLines (t : WrittenTag) : List (List Char) :=
  match t.gap with
  | none => []
  | some remarks => Remark.blank.line :: remarks.map Remark.line

def lines (t : WrittenTag) : List (List Char) :=
  starred ('@' :: sentence (t.name :: t.first)) :: t.more.map (starred ∘ sentence) ++ t.gapLines

/-- The tag as a block has it. -/
def tag (t : WrittenTag) : Tag :=
  ⟨t.name.1, sentence t.first ++ (t.more.map sentence).flatMap (' ' :: ·)⟩

end WrittenTag

/-- A block: remarks, then tags. -/
structure Layout where
  opening : List Remark
  tags : List WrittenTag

namespace Layout

def lines (l : Layout) : List (List Char) :=
  ['/', '*', '*'] :: l.opening.map Remark.line ++ l.tags.flatMap WrittenTag.lines

def text (l : Layout) : String :=
  String.ofList (['\n'].intercalate (l.lines ++ [[' ', '*', '/']]))

end Layout

/-! ### Reading a line -/

/-- What a line comes to, its end included. -/
def lineOf (l : List Char) : Line := Line.ofText (undecorate (dropReturn l))

theorem trimStart_cons_blank {c : Char} (hc : isBlank c = true) (s : List Char) :
    trimStart (c :: s) = trimStart s := List.dropWhile_cons_of_pos hc

theorem trimStart_star (s : List Char) : trimStart ('*' :: s) = '*' :: s :=
  List.dropWhile_cons_of_neg (by decide)

theorem trim_space_cons {s : List Char} (hhead : ∀ c ∈ s.head?, isBlank c = false)
    (hlast : ∀ c ∈ s.getLast?, isBlank c = false) : trim (' ' :: s) = s := by
  rw [trim, trimStart_cons_blank (by decide), ← trim, trim_eq_self hhead hlast]

/-- Without its decoration, a line is the text that it shows, if this has no blanks at its ends. -/
theorem undecorate_starred {s : List Char} (hne : s ≠ [])
    (hhead : ∀ c ∈ s.head?, isBlank c = false) (hlast : ∀ c ∈ s.getLast?, isBlank c = false)
    (hopen : ¬ ['*', '/'] <:+ s) : undecorate (starred s) = s := by
  have hstar : trim (starred s) = '*' :: ' ' :: s := by
    rw [trim, starred, trimStart_cons_blank (by decide), ← trim]
    refine trim_eq_self (by simpa using by decide) ?_
    rwa [List.getLast?_cons_cons, List.getLast?_cons_of_ne_nil hne]
  have hprefix : stripPrefix? ['/', '*', '*'] ('*' :: ' ' :: s) = none := rfl
  have hsuffix : stripSuffix? ['*', '/'] ('*' :: ' ' :: s) = none := by
    refine stripSuffix?_eq_none fun h => ?_
    rcases List.suffix_cons_iff.mp h with h | h
    · cases h
    · rcases List.suffix_cons_iff.mp h with h | h
      · cases h
      · exact hopen h
  rw [undecorate, hstar, hprefix, Option.getD_none, hsuffix, Option.getD_none, trimStart_star]
  exact trim_space_cons hhead hlast

theorem dropReturn_eq_self {s : List Char} (hlast : ∀ c ∈ s.getLast?, isBlank c = false) :
    dropReturn s = s := by
  have hnone : stripSuffix? ['\r'] s = none := by
    refine stripSuffix?_eq_none fun h => ?_
    obtain ⟨t, rfl⟩ := h
    have hblank := hlast '\r' (by simp)
    exact absurd hblank (by decide)
  rw [dropReturn, hnone, Option.getD_none]

/-- What is left of a line without its decoration is a leading part of the text that it shows. -/
theorem undecorate_isPrefix {l s : List Char} (h : l <+: starred s) :
    undecorate l <+: trimStart s := by
  have htrim : trim l <+: '*' :: ' ' :: s := by
    have hstart := trimStart_isPrefix h
    rw [starred, trimStart_cons_blank (by decide), trimStart_star] at hstart
    exact (trimEnd_isPrefix _).trans hstart
  have hopening : (stripPrefix? ['/', '*', '*'] (trim l)).getD (trim l) = trim l := by
    rcases List.prefix_cons_iff.mp htrim with hnil | ⟨t, ht, -⟩
    · rw [hnil]
      rfl
    · rw [ht]
      rfl
  -- without a closing mark, what is left still starts with the star, if there is anything left
  have hstar :
      trimStart ((stripSuffix? ['*', '/'] (trim l)).getD (trim l)) <+: '*' :: ' ' :: s := by
    have hclosed := trimStart_isPrefix ((stripSuffix?_isPrefix ['*', '/'] (trim l)).trans htrim)
    rwa [trimStart_star] at hclosed
  rw [undecorate, hopening]
  rcases List.prefix_cons_iff.mp hstar with hnil | ⟨t, ht, hprefix⟩
  · rw [hnil]
    exact List.nil_prefix
  · rw [ht]
    have hcontent := trimStart_isPrefix hprefix
    rw [trimStart_cons_blank (by decide)] at hcontent
    exact (trimEnd_isPrefix _).trans hcontent

theorem head?_of_ofText_eq_tag {s name body : List Char} (h : Line.ofText s = .tag name body) :
    s.head? = some '@' := by
  rw [Line.ofText.eq_def] at h
  split at h
  · cases h
  · rfl
  · cases h

/-- A remark is no tag. -/
theorem lineOf_remark (m : Remark) (name body : List Char) : lineOf m.line ≠ .tag name body := by
  cases m with
  | blank => exact nofun
  | text content oneLine plain =>
    intro h
    obtain ⟨rest, hrest⟩ := undecorate_isPrefix (stripSuffix?_isPrefix ['\r'] (starred content))
    have hhead := head?_of_ofText_eq_tag h
    refine plain ?_
    rw [← hrest, List.head?_append]
    exact congrArg (·.or rest.head?) hhead

theorem lineOf_remarks (ms : List Remark) :
    ∀ l ∈ (ms.map Remark.line).map lineOf, ∀ name body, l ≠ .tag name body := by
  intro l hl
  obtain ⟨_, hline, rfl⟩ := List.mem_map.mp hl
  obtain ⟨m, -, rfl⟩ := List.mem_map.mp hline
  exact lineOf_remark m

/-! ### Reading the lines of a tag -/

theorem isWord_of_mem {ws : List Word} : ∀ w ∈ ws.map (·.1), IsWord w := by
  intro w hw
  obtain ⟨w, -, rfl⟩ := List.mem_map.mp hw
  exact w.2

theorem sentence_ne_nil {ws : List Word} (h : ws ≠ []) : sentence ws ≠ [] := by
  obtain ⟨w, ws, rfl⟩ := List.exists_cons_of_ne_nil h
  obtain ⟨rest, hrest⟩ := isPrefix_unwords w.1 (ws.map (·.1))
  intro hnil
  rw [sentence, List.map_cons, ← hrest] at hnil
  exact w.2.1 (List.append_eq_nil_iff.mp hnil).1

theorem lineOf_starred {s : List Char} (hne : s ≠ []) (hhead : ∀ c ∈ s.head?, isBlank c = false)
    (hlast : ∀ c ∈ s.getLast?, isBlank c = false) (hopen : ¬ ['*', '/'] <:+ s) :
    lineOf (starred s) = Line.ofText s := by
  have hreturn : dropReturn (starred s) = starred s := by
    refine dropReturn_eq_self ?_
    rwa [starred, List.getLast?_cons_cons, List.getLast?_cons_cons,
      List.getLast?_cons_of_ne_nil hne]
  rw [lineOf, hreturn, undecorate_starred hne hhead hlast hopen]

theorem ofText_of_plain {s : List Char} (hne : s ≠ []) (hplain : s.head? ≠ some '@') :
    Line.ofText s = .text s := by
  rw [Line.ofText.eq_def]
  split
  · exact absurd rfl hne
  · exact absurd rfl hplain
  · rfl

/-- A line of words that does not start like a tag is text. -/
theorem lineOf_sentence {ws : List Word} (hne : ws ≠ []) (hplain : (sentence ws).head? ≠ some '@')
    (hopen : ¬ ['*', '/'] <:+ sentence ws) :
    lineOf (starred (sentence ws)) = .text (sentence ws) := by
  rw [lineOf_starred (sentence_ne_nil hne) (isBlank_of_head?_unwords isWord_of_mem)
    (isBlank_of_getLast?_unwords isWord_of_mem) hopen, ofText_of_plain (sentence_ne_nil hne) hplain]

/-- The text of a tag line gives its name and its first words. -/
theorem ofText_tag (name : Word) (ws : List Word) :
    Line.ofText ('@' :: sentence (name :: ws)) = .tag name.1 (sentence ws) := by
  have hname : ∀ c ∈ name.1, (! isBlank c) = true := fun c hc => by simp [name.2.2 c hc]
  show Line.tag _ _ = _
  cases ws with
  | nil =>
    have hrest : sentence [name] = name.1 := unwords_singleton _
    rw [hrest, List.takeWhile_eq_self_iff.mpr hname, List.dropWhile_eq_nil_iff.mpr hname]
    rfl
  | cons w ws =>
    have hrest : sentence (name :: w :: ws) = name.1 ++ ' ' :: sentence (w :: ws) :=
      unwords_cons_cons _ _ _
    have htrim : trim (' ' :: sentence (w :: ws)) = sentence (w :: ws) :=
      trim_space_cons (isBlank_of_head?_unwords isWord_of_mem)
        (isBlank_of_getLast?_unwords isWord_of_mem)
    rw [hrest, List.takeWhile_append_of_pos hname, List.dropWhile_append_of_pos hname,
      List.takeWhile_cons_of_neg (by decide), List.dropWhile_cons_of_neg (by decide), htrim,
      List.append_nil]

theorem isBlank_of_getLast?_tag (name : Word) (ws : List Word) :
    ∀ c ∈ ('@' :: sentence (name :: ws)).getLast?, isBlank c = false := by
  rw [List.getLast?_cons_of_ne_nil (sentence_ne_nil (List.cons_ne_nil _ _))]
  exact isBlank_of_getLast?_unwords isWord_of_mem

theorem lineOf_tag {name : Word} {ws : List Word}
    (hopen : ¬ ['*', '/'] <:+ '@' :: sentence (name :: ws)) :
    lineOf (starred ('@' :: sentence (name :: ws))) = .tag name.1 (sentence ws) := by
  rw [lineOf_starred (List.cons_ne_nil _ _) (by simpa using by decide)
    (isBlank_of_getLast?_tag name ws) hopen, ofText_tag]

/-! ### Reading a block -/

theorem tagsOf_append_of_plain {ls : List Line} (h : ∀ l ∈ ls, ∀ name body, l ≠ .tag name body)
    (rest : List Line) : tagsOf (ls ++ rest) = tagsOf rest := by
  induction ls with
  | nil => rfl
  | cons l ls ih =>
    obtain ⟨hl, hls⟩ := List.forall_mem_cons.mp h
    cases l with
    | tag name body => exact absurd rfl (hl name body)
    | blank => exact ih hls
    | text s => exact ih hls

theorem leadingText_map_text (ss : List (List Char)) (rest : List Line) :
    leadingText (ss.map .text ++ rest) = ss ++ leadingText rest := by
  induction ss with
  | nil => rfl
  | cons s ss ih => rw [List.map_cons, List.cons_append, leadingText, ih, List.cons_append]

namespace WrittenTag

variable (t : WrittenTag)

/-- The lines of words come to the tag, and to text. -/
theorem map_lineOf_lines : t.lines.map lineOf = .tag t.name.1 (sentence t.first) ::
    (t.more.map sentence).map .text ++ t.gapLines.map lineOf := by
  have hmore : t.more.map (lineOf ∘ starred ∘ sentence) = t.more.map (.text ∘ sentence) := by
    refine List.map_congr_left fun ws hws => ?_
    have hopen := t.unclosed _ (List.mem_cons_of_mem _ (List.mem_map_of_mem hws))
    rw [Function.comp_apply, Function.comp_apply, Function.comp_apply,
      lineOf_sentence (t.more_ne_nil ws hws) (t.more_plain ws hws) hopen]
  rw [lines, List.map_append, List.map_cons, lineOf_tag (t.unclosed _ List.mem_cons_self),
    List.map_map, List.map_map, hmore]

/-- After the words of a tag, its lines give no more text to it and no more tags. -/
theorem gapLines_cases (rest : List Line) (hrest : leadingText rest = []) :
    leadingText (t.gapLines.map lineOf ++ rest) = [] ∧
      tagsOf (t.gapLines.map lineOf ++ rest) = tagsOf rest := by
  rw [gapLines]
  split
  · exact ⟨hrest, rfl⟩
  · rename_i remarks _
    exact ⟨rfl, tagsOf_append_of_plain (lineOf_remarks (.blank :: remarks)) rest⟩

/-- The lines of a tag give the tag, with its own words and no others. -/
theorem tagsOf_lines (rest : List Line) (hrest : leadingText rest = []) :
    tagsOf (t.lines.map lineOf ++ rest) = t.tag :: tagsOf rest := by
  obtain ⟨hleading, htags⟩ := t.gapLines_cases rest hrest
  rw [map_lineOf_lines, List.cons_append, List.cons_append, tagsOf, List.append_assoc,
    leadingText_map_text, hleading, List.append_nil, tagsOf_append_of_plain, htags]
  · rfl
  · intro l hl
    obtain ⟨s, -, rfl⟩ := List.mem_map.mp hl
    exact fun name body => nofun

/-- The body of a tag has the words that were written. -/
theorem words_body : Text.words t.tag.body = t.words := by
  have hwords : ∀ ws : List Word, Text.words (sentence ws) = ws.map (·.1) :=
    fun ws => words_unwords_of_isWord isWord_of_mem
  rw [tag, words_append_flatMap, hwords, List.flatMap_map, words, List.map_append, List.map_flatten]
  simp only [hwords, List.flatMap]

end WrittenTag

/-- The tags of a block that is laid out are those that were written. -/
theorem tagsOf_flatMap_lines (ts : List WrittenTag) :
    leadingText ((ts.flatMap WrittenTag.lines).map lineOf ++ [.blank]) = [] ∧
      tagsOf ((ts.flatMap WrittenTag.lines).map lineOf ++ [.blank]) = ts.map WrittenTag.tag := by
  induction ts with
  | nil => exact ⟨rfl, rfl⟩
  | cons t ts ih =>
    -- what follows the lines of a tag starts with a tag or with the end, so it adds no text to it
    obtain ⟨hleading, htags⟩ := ih
    rw [List.flatMap_cons, List.map_append, List.append_assoc]
    refine ⟨?_, ?_⟩
    · rw [t.map_lineOf_lines]
      rfl
    · rw [t.tagsOf_lines _ hleading, htags, List.map_cons]

theorem not_mem_sentence (ws : List Word) : '\n' ∉ sentence ws := by
  intro h
  rcases mem_unwords h with hspace | ⟨w, hw, hc⟩
  · exact absurd hspace (by decide)
  · exact absurd ((isWord_of_mem w hw).2 _ hc) (by decide)

theorem not_mem_remark (m : Remark) : '\n' ∉ m.line := by
  cases m with
  | blank => decide
  | text content oneLine plain => simpa [Remark.line, starred] using oneLine

/-- No line of a layout has a line feed in it. -/
theorem not_mem_lines (layout : Layout) : ∀ l ∈ layout.lines, '\n' ∉ l := by
  have hgap : ∀ t : WrittenTag, ∀ l ∈ t.gapLines, '\n' ∉ l := by
    intro t l hl
    rw [WrittenTag.gapLines] at hl
    split at hl
    · exact absurd hl List.not_mem_nil
    · rw [← List.map_cons] at hl
      obtain ⟨m, -, rfl⟩ := List.mem_map.mp hl
      exact not_mem_remark m
  intro l hl
  rw [Layout.lines, List.cons_append, List.mem_cons, List.mem_append, List.mem_map,
    List.mem_flatMap] at hl
  rcases hl with rfl | ⟨m, -, rfl⟩ | ⟨t, -, hl⟩
  · decide
  · exact not_mem_remark m
  · rw [WrittenTag.lines, List.cons_append, List.mem_cons, List.mem_append, List.mem_map] at hl
    rcases hl with rfl | ⟨ws, -, rfl⟩ | hl
    · simpa [starred] using not_mem_sentence _
    · simpa [starred] using not_mem_sentence ws
    · exact hgap t l hl

/-- The tags of the text are those that were written, each with its own words and no others. -/
theorem tags_layout (layout : Layout) :
    tags layout.text.toList = layout.tags.map WrittenTag.tag := by
  have hlast : Line.ofText (undecorate [' ', '*', '/']) = .blank := by decide +kernel
  have hfirst : lineOf ['/', '*', '*'] = .blank := by decide +kernel
  have hopening : ∀ l ∈ .blank :: (layout.opening.map Remark.line).map lineOf,
      ∀ name body, l ≠ .tag name body := by
    exact List.forall_mem_cons.mpr ⟨fun name body => nofun, lineOf_remarks layout.opening⟩
  have hlines : (layout.lines.map dropReturn).map (Line.ofText ∘ undecorate) =
      (.blank :: (layout.opening.map Remark.line).map lineOf) ++
        (layout.tags.flatMap WrittenTag.lines).map lineOf := by
    have hcomp : (Line.ofText ∘ undecorate) ∘ dropReturn = lineOf := by
      funext l
      rw [Function.comp_apply, Function.comp_apply, lineOf]
    rw [List.map_map, hcomp, Layout.lines, List.map_append, List.map_cons, hfirst]
  rw [tags, Layout.text, String.toList_ofList, lines_intercalate (List.cons_ne_nil _ _) ?_,
    List.map_append, hlines, List.map_singleton, Function.comp_apply, hlast, List.append_assoc,
    tagsOf_append_of_plain hopening, (tagsOf_flatMap_lines layout.tags).2]
  intro l hl
  rcases List.mem_append.mp hl with hl | hl
  · exact not_mem_lines layout l hl
  · rw [List.mem_singleton.mp hl]
    decide

theorem WrittenTag.annotation?_eq {t : WrittenTag} {note : Annotation}
    (h : Gives t.name.1 t.words note) : t.tag.annotation? = some note :=
  h.annotation?_eq t.words_body isWord_of_mem

/-- The tags that are understood give the annotations that are read, and these only. -/
theorem forall₂_gives_iff (ts : List WrittenTag) (notes : List Annotation) :
    List.Forall₂ (fun t note => Gives t.name.1 t.words note)
        (ts.filter (·.name.1 ∈ understood)) notes ↔
      notes = (ts.map WrittenTag.tag).filterMap Tag.annotation? := by
  induction ts generalizing notes with
  | nil => simp
  | cons t ts ih =>
    rw [List.map_cons]
    by_cases ht : t.name.1 ∈ understood
    · obtain ⟨note, hnote⟩ := exists_gives ht t.words
      rw [List.filter_cons_of_pos (by simpa using ht),
        List.filterMap_cons_some (WrittenTag.annotation?_eq hnote), List.forall₂_cons_left_iff]
      constructor
      · rintro ⟨note', notes', hnote', hnotes', rfl⟩
        have heq := (WrittenTag.annotation?_eq hnote').symm.trans (WrittenTag.annotation?_eq hnote)
        rw [(ih notes').mp hnotes', Option.some.inj heq]
      · rintro rfl
        exact ⟨note, _, hnote, (ih _).mpr rfl, rfl⟩
    · have hnone : t.tag.annotation? = none := annotation?_eq_none ht t.tag.body
      rw [List.filter_cons_of_neg (by simpa using ht), List.filterMap_cons_none hnone, ih]

/-- **The grammar of blocks**: however a block is laid out, it is read, and what is read is one
annotation for each `param`, `return` and `method` tag, in the order of the tags, and none for
anything else; each is the one annotation that the words of the tag give. -/
theorem annotations_of_layout (layout : Layout) :
    ∃ notes, reader layout.text = .ok notes ∧
      ∀ notes', List.Forall₂ (fun t note => Gives t.name.1 t.words note)
        (layout.tags.filter (·.name.1 ∈ understood)) notes' ↔ notes' = notes := by
  refine ⟨(layout.tags.map WrittenTag.tag).filterMap Tag.annotation?, ?_,
    forall₂_gives_iff layout.tags⟩
  rw [reader, annotations, tags_layout]

/-- A block with a remark at its head, a parameter over two lines, a remark after it, a tag that is
not understood and a method. -/
def sample : Layout where
  opening := [.text "Adds numbers.".toList (by decide) (by decide)]
  tags :=
    [{ name := word "param", first := [word "int"], more := [[word "...$a", word "first"]]
       gap := some [.text "See below.".toList (by decide) (by decide)] },
     { name := word "since", first := [word "2.0"] },
     { name := word "method", first := [word "static", word "of", word "($x)"] }]

example : sample.text = "/**\n * Adds numbers.\n * @param int\n * ...$a first\n *\n" ++
    " * See below.\n * @since 2.0\n * @method static of ($x)\n */" := by
  decide +kernel

example : reader sample.text = .ok [.param "int" "a", .method "of" "static void of($x)"] := by
  decide +kernel

end ClassSurface.DocBlock
