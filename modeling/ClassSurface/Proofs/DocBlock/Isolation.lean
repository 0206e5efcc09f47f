import ClassSurface.Proofs.DocBlock.Layout

/-! # Proofs.DocBlock.Isolation — a tag takes nothing from its neighbours

A tag runs on over the text that follows it, so two texts may only be read apart if no tag runs over
the seam: the first one leaves no tag open (`Settled`), or the second one does not go on with one
(`StartsAfresh`).

* `tagsOf_append`: then the tags of both are the tags of the first and those of the second.
* `reader_isolates`: so it is for annotations; and a tag with its text can be put anywhere into a
  block, exchanged, or taken out of it, and what all others give stays the same.
-/

namespace ClassSurface.DocBlock

open Text

/-! ### Seams between lines -/

/-- A tag is open at the end: after the last tag line there is nothing but text. -/
def LeavesOpen (ls : List Line) : Prop :=
  ∃ before name body, ∃ more : List (List Char), ls = before ++ .tag name body :: more.map .text

theorem LeavesOpen.cons {ls : List Line} (h : LeavesOpen ls) (l : Line) : LeavesOpen (l :: ls) := by
  obtain ⟨before, name, body, more, rfl⟩ := h
  exact ⟨l :: before, name, body, more, rfl⟩

theorem leadingText_append {ls ms : List Line}
    (h : (∀ more : List (List Char), ls ≠ more.map .text) ∨ leadingText ms = []) :
    leadingText (ls ++ ms) = leadingText ls := by
  induction ls with
  | nil =>
    rcases h with h | h
    · exact absurd rfl (h [])
    · exact h
  | cons l ls ih =>
    cases l with
    | text s =>
      have hrest : (∀ more : List (List Char), ls ≠ more.map .text) ∨ leadingText ms = [] := by
        refine h.imp_left fun hstop more hmore => ?_
        exact hstop (s :: more) (by rw [hmore, List.map_cons])
      rw [List.cons_append, leadingText, leadingText, ih hrest]
    | tag name body => rfl
    | blank => rfl

/-- Lines are read apart unless a tag is open at the seam and text follows. -/
theorem tagsOf_append {ls ms : List Line} (h : ¬ LeavesOpen ls ∨ leadingText ms = []) :
    tagsOf (ls ++ ms) = tagsOf ls ++ tagsOf ms := by
  induction ls with
  | nil => rfl
  | cons l ls ih =>
    have hrest : ¬ LeavesOpen ls ∨ leadingText ms = [] :=
      h.imp_left fun hopen hls => hopen (hls.cons l)
    cases l with
    | tag name body =>
      have htext : leadingText (ls ++ ms) = leadingText ls := by
        refine leadingText_append (h.imp_left fun hopen more hmore => ?_)
        exact hopen ⟨[], name, body, more, by rw [hmore, List.nil_append]⟩
      rw [List.cons_append, tagsOf, tagsOf, htext, ih hrest, List.cons_append]
    | blank => exact ih hrest
    | text s => exact ih hrest

/-- A tag with text after it takes this text and what text comes next, and no more. -/
theorem tagsOf_tag_append (name body : List Char) (more : List (List Char)) (rest : List Line) :
    tagsOf (.tag name body :: more.map .text ++ rest) =
      ⟨name, body ++ (more ++ leadingText rest).flatMap (' ' :: ·)⟩ :: tagsOf rest := by
  have hplain : ∀ l ∈ more.map Line.text, ∀ name body, l ≠ .tag name body := by
    intro l hl
    obtain ⟨s, -, rfl⟩ := List.mem_map.mp hl
    exact fun name body => nofun
  rw [List.cons_append, tagsOf, leadingText_map_text, tagsOf_append_of_plain hplain]

/-! ### Texts line by line -/

/-- The lines of a text as they are understood. -/
def shownLines (doc : String) : List Line :=
  (lines doc.toList).map (Line.ofText ∘ undecorate)

theorem undecorate_dropReturn (l : List Char) : undecorate (dropReturn l) = undecorate l := by
  rw [dropReturn]
  cases h : stripSuffix? ['\r'] l with
  | none => rfl
  | some r =>
    rw [stripSuffix?_eq_some_iff.mp h, Option.getD_some, undecorate, undecorate,
      trim_append_blank (by decide)]

/-- The lines of a text, and a blank one more if the text is empty or ends in a line feed. -/
def allLines (s : List Char) : List Line := (s.splitOn '\n').map lineOf

theorem map_closeLines {ls : List (List Char)} (hne : ls ≠ []) :
    ls.map lineOf = (closeLines ls).map (Line.ofText ∘ undecorate) ∨
      ls.map lineOf = (closeLines ls).map (Line.ofText ∘ undecorate) ++ [.blank] := by
  induction ls with
  | nil => exact absurd rfl hne
  | cons l ls ih =>
    by_cases hls : ls = []
    · subst hls
      by_cases hl : l = []
      · subst hl
        exact .inr rfl
      · refine .inl ?_
        rw [closeLines, if_neg (by simpa using hl), List.map_singleton, List.map_singleton, lineOf,
          undecorate_dropReturn, Function.comp_apply]
    · have hclose : closeLines (l :: ls) = dropReturn l :: closeLines ls := by
        rw [closeLines]
        exact hls
      rw [hclose, List.map_cons, List.map_cons, List.cons_append, Function.comp_apply, ← lineOf]
      rcases ih hls with h | h
      · exact .inl (by rw [h])
      · exact .inr (by rw [h])

theorem allLines_cases (doc : String) :
    allLines doc.toList = shownLines doc ∨ allLines doc.toList = shownLines doc ++ [.blank] :=
  map_closeLines (List.splitOn_ne_nil _ _)

theorem tags_eq (doc : String) : tags doc.toList = tagsOf (allLines doc.toList) := by
  show tagsOf (shownLines doc) = _
  rcases allLines_cases doc with h | h
  · rw [h]
  · rw [h, tagsOf_append (.inr rfl)]
    exact (List.append_nil _).symm

theorem allLines_append (s t : List Char) :
    allLines (s ++ '\n' :: t) = allLines s ++ allLines t := by
  rw [allLines, List.splitOn_append_cons_self, List.map_append]
  rfl

/-- Parts of a block, one below the other. -/
def joined (parts : List String) : String := "\n".intercalate parts

theorem toList_joined_cons (part : String) {parts : List String} (h : parts ≠ []) :
    (joined (part :: parts)).toList = part.toList ++ '\n' :: (joined parts).toList := by
  rw [joined, String.intercalate_cons_of_ne_nil h, String.toList_append, String.toList_append,
    List.append_assoc]
  rfl

theorem allLines_joined {parts : List String} (h : parts ≠ []) :
    allLines (joined parts).toList = parts.flatMap (allLines ·.toList) := by
  induction parts with
  | nil => exact absurd rfl h
  | cons part parts ih =>
    by_cases hparts : parts = []
    · subst hparts
      rw [joined, String.intercalate_singleton, List.flatMap_singleton]
    · rw [toList_joined_cons part hparts, allLines_append, ih hparts, List.flatMap_cons]

theorem tags_joined (parts : List String) :
    tags (joined parts).toList = tagsOf (parts.flatMap (allLines ·.toList)) := by
  by_cases h : parts = []
  · subst h
    rfl
  · rw [tags_eq, allLines_joined h]

/-! ### Seams between texts -/

/-- The text leaves no tag open: it has no tag line, or its last line is blank, as it is if the text
ends in a line feed. -/
def Settled (doc : String) : Prop :=
  (∀ name body, .tag name body ∉ allLines doc.toList) ∨
    (allLines doc.toList).getLast? = some .blank

/-- The text does not go on with a tag before it: its first line is blank or a tag line. -/
def StartsAfresh (doc : String) : Prop := ∀ s, (allLines doc.toList).head? ≠ some (.text s)

theorem Settled.not_leavesOpen {doc : String} (h : Settled doc) :
    ¬ LeavesOpen (allLines doc.toList) := by
  rintro ⟨before, name, body, more, hls⟩
  rw [Settled, hls] at h
  rcases h with hnone | hblank
  · exact hnone name body (List.mem_append_right _ List.mem_cons_self)
  · -- the last line is the tag or text
    rcases List.eq_nil_or_concat more with rfl | ⟨more, s, rfl⟩
    · simp at hblank
    · rw [List.concat_eq_append, List.map_append, List.map_singleton, ← List.cons_append,
        ← List.append_assoc, List.getLast?_concat] at hblank
      cases hblank

theorem StartsAfresh.leadingText_eq {doc : String} (h : StartsAfresh doc) :
    leadingText (allLines doc.toList) = [] := by
  rw [StartsAfresh] at h
  generalize allLines doc.toList = ls at h
  cases ls with
  | nil => rfl
  | cons l ls =>
    cases l with
    | text s => exact absurd rfl (h s)
    | tag name body => rfl
    | blank => rfl

theorem not_leavesOpen_parts {parts : List String} (h : Settled (joined parts)) :
    ¬ LeavesOpen (parts.flatMap (allLines ·.toList)) := by
  by_cases hparts : parts = []
  · subst hparts
    rintro ⟨before, name, body, more, hnil⟩
    simp at hnil
  · rw [← allLines_joined hparts]
    exact h.not_leavesOpen

theorem leadingText_parts {parts : List String} (h : StartsAfresh (joined parts)) :
    leadingText (parts.flatMap (allLines ·.toList)) = [] := by
  by_cases hparts : parts = []
  · subst hparts
    rfl
  · rw [← allLines_joined hparts]
    exact h.leadingText_eq

/-- The parts of a block may be read apart where no tag runs over the seam. -/
theorem tags_joined_append {before after : List String}
    (h : Settled (joined before) ∨ StartsAfresh (joined after)) :
    tags (joined (before ++ after)).toList =
      tags (joined before).toList ++ tags (joined after).toList := by
  rw [tags_joined, tags_joined, tags_joined, List.flatMap_append]
  exact tagsOf_append (h.imp not_leavesOpen_parts leadingText_parts)

/-! ### One tag in a block -/

/-- A tag with text that goes on with it, and nothing else. -/
def IsOneTag (name : List Char) (t : String) : Prop :=
  ∃ body, ∃ more : List (List Char), shownLines t = .tag name body :: more.map .text

theorem IsOneTag.exists_allLines {name : List Char} {t : String} (h : IsOneTag name t) :
    ∃ body, ∃ more : List (List Char), ∃ tail, (tail = [] ∨ tail = [.blank]) ∧
      allLines t.toList = .tag name body :: more.map .text ++ tail := by
  obtain ⟨body, more, hshown⟩ := h
  rcases allLines_cases t with hlines | hlines
  · exact ⟨body, more, [], .inl rfl, by rw [hlines, hshown, List.append_nil]⟩
  · exact ⟨body, more, [.blank], .inr rfl, by rw [hlines, hshown]⟩

/-- Wherever a tag stands, it is read between what comes before it and what comes after it. -/
theorem exists_tag_between {name : List Char} {t : String} (h : IsOneTag name t)
    (before after : List String) :
    ∃ tag : Tag, tag.name = name ∧ (StartsAfresh (joined after) → tags t.toList = [tag]) ∧
      tags (joined (before ++ t :: after)).toList =
        tags (joined before).toList ++ tag :: tags (joined after).toList := by
  obtain ⟨body, more, tail, htail, hlines⟩ := h.exists_allLines
  have hrest : ∀ ls : List Line, tagsOf (tail ++ ls) = tagsOf ls := by
    rcases htail with rfl | rfl <;> exact fun ls => rfl
  refine ⟨⟨name, body ++ (more ++ leadingText (tail ++ after.flatMap (allLines ·.toList))).flatMap
    (' ' :: ·)⟩, rfl, fun hafter => ?_, ?_⟩
  · have htext : leadingText (tail ++ after.flatMap (allLines ·.toList)) = leadingText tail :=
      leadingText_append (.inr (leadingText_parts hafter))
    rw [tags_eq, hlines, tagsOf_tag_append, htext, ← List.append_nil tail, hrest]
    simp [tagsOf]
  · -- the line of the tag ends whatever stands before it
    rw [tags_joined, tags_joined, tags_joined, List.flatMap_append, List.flatMap_cons, hlines,
      tagsOf_append (.inr rfl), List.append_assoc, tagsOf_tag_append, hrest]

/-- **Tags are isolated**: texts are read apart where no tag runs over the seam between them, that
is where the first one leaves no tag open or the second one starts afresh. Hence, wherever a tag
stands in a block, whether it can be read or not, what the rest gives is what it gives without the
tag; a tag that is not understood adds nothing at all. -/
theorem reader_isolates :
    (∀ d₁ d₂ : String, Settled d₁ ∨ StartsAfresh d₂ →
      reader (d₁ ++ "\n" ++ d₂) = .ok (annotations d₁ ++ annotations d₂)) ∧
    ∀ (name : List Char) (t : String) (before after : List String), IsOneTag name t →
      (∃ own : Option Annotation, (name ∉ understood → own = none) ∧
        (StartsAfresh (joined after) → annotations t = own.toList) ∧
        reader (joined (before ++ t :: after)) =
          .ok (annotations (joined before) ++ own.toList ++ annotations (joined after))) ∧
      (Settled (joined before) ∨ StartsAfresh (joined after) →
        reader (joined (before ++ after)) =
          .ok (annotations (joined before) ++ annotations (joined after))) := by
  have happend : ∀ before after : List String,
      Settled (joined before) ∨ StartsAfresh (joined after) →
        reader (joined (before ++ after)) =
          .ok (annotations (joined before) ++ annotations (joined after)) := by
    intro before after h
    rw [reader, annotations, tags_joined_append h, List.filterMap_append]
    rfl
  refine ⟨fun d₁ d₂ h => ?_, fun name t before after ht => ⟨?_, happend before after⟩⟩
  · have hone : ∀ d : String, joined [d] = d := fun d => String.intercalate_singleton
    have htwo : joined ([d₁] ++ [d₂]) = d₁ ++ "\n" ++ d₂ := by
      rw [joined, List.singleton_append, String.intercalate_cons_cons, String.intercalate_singleton]
    rw [← htwo, happend [d₁] [d₂] (by rwa [hone, hone]), hone, hone]
  · obtain ⟨tag, hname, halone, htags⟩ := exists_tag_between ht before after
    refine ⟨tag.annotation?, fun hnot => ?_, fun hafter => ?_, ?_⟩
    · exact annotation?_eq_none (hname ▸ hnot) tag.body
    · rw [annotations, halone hafter]
      cases htag : tag.annotation? <;> simp [htag]
    · rw [reader, annotations, htags, List.filterMap_append]
      cases htag : tag.annotation? <;> simp [annotations, htag]

/-- A text that closes its tag, and a block with a method tag over two lines that cannot be read. -/
theorem reader_isolates_sum :
    Settled "/** @param $x\n *" ∧
      reader ("/** @param $x\n *" ++ "\n" ++ "Adds up.\n@return int */") =
        .ok (annotations "/** @param $x\n *" ++ annotations "Adds up.\n@return int */") ∧
      IsOneTag "method".toList " * @method int\n *  of all" ∧
      StartsAfresh (joined ["@return int */"]) ∧
      reader (joined (["/** @param $x"] ++ ["@return int */"])) =
        .ok (annotations (joined ["/** @param $x"]) ++ annotations (joined ["@return int */"])) ∧
      ∃ own : Option Annotation, annotations " * @method int\n *  of all" = own.toList ∧
        reader (joined (["/** @param $x"] ++ " * @method int\n *  of all" :: ["@return int */"])) =
          .ok (annotations (joined ["/** @param $x"]) ++ own.toList ++
            annotations (joined ["@return int */"])) := by
  have hclosed : Settled "/** @param $x\n *" := .inr (by decide +kernel)
  have htag : IsOneTag "method".toList " * @method int\n *  of all" :=
    ⟨"int".toList, ["of all".toList], by decide +kernel⟩
  have hafter : StartsAfresh (joined ["@return int */"]) := by
    have hhead : (allLines (joined ["@return int */"]).toList).head? =
        some (.tag "return".toList "int".toList) := by decide +kernel
    intro s
    rw [hhead]
    exact nofun
  obtain ⟨⟨own, -, hown, hread⟩, hremoved⟩ :=
    reader_isolates.2 _ _ ["/** @param $x"] ["@return int */"] htag
  exact ⟨hclosed, reader_isolates.1 _ _ (.inl hclosed), htag, hafter, hremoved (.inr hafter), own,
    hown hafter, hread⟩

end ClassSurface.DocBlock
