import ClassSurface.Proofs.DocBlock.Isolation
import ClassSurface.Proofs.Text.Blanks
import Mathlib.Logic.Relation

/-! # Proofs.DocBlock.Relayout — a block is read by the words of its lines

* `readLine_lineOf`: what a line comes to depends on its words alone.
* `Relaid` is one change of layout: another line end, blanks at an end of a line, other blanks
  between two words, or a line that is joined with the one that runs on from it.
* `reader_relaid`: no number of such changes makes a difference.
-/

namespace ClassSurface.DocBlock

open Text

/-! ### The words of a line -/

/-- The words of a line without its decoration. -/
def bareWords (ws : List (List Char)) : List (List Char) :=
  peelFirst ['*'] (peelLast ['*', '/'] (peelFirst ['/', '*', '*'] ws))

theorem stripPrefix?_isSuffix (t s : List Char) : (stripPrefix? t s).getD s <:+ s := by
  cases h : stripPrefix? t s with
  | none => exact List.suffix_rfl
  | some r => exact ⟨t, (stripPrefix?_eq_some_iff.mp h).symm⟩

theorem isBlank_of_getLast?_isSuffix {s t : List Char} (h : s <:+ t)
    (ht : ∀ c ∈ t.getLast?, isBlank c = false) : ∀ c ∈ s.getLast?, isBlank c = false := by
  obtain ⟨u, rfl⟩ := h
  intro c hc
  refine ht c ?_
  rw [List.getLast?_append, Option.mem_def.mp hc]
  rfl

theorem words_undecorate (l : List Char) : words (undecorate l) = bareWords (words l) := by
  have hstar : IsWord ['*'] := by decide
  have hopening : IsWord ['/', '*', '*'] := by decide
  have hclosing : IsWord ['*', '/'] := by decide
  have hlast := isBlank_of_getLast?_isSuffix (stripPrefix?_isSuffix ['/', '*', '*'] (trim l))
    (isBlank_of_getLast?_trimEnd (trimStart l))
  rw [undecorate, words_trim, words_stripPrefix hstar (isBlank_of_head?_trimStart _),
    words_trimStart, words_stripSuffix hclosing hlast,
    words_stripPrefix hopening (isBlank_of_head?_trim l), words_trim, bareWords]

theorem isBlank_of_head?_undecorate (l : List Char) :
    ∀ c ∈ (undecorate l).head?, isBlank c = false := isBlank_of_head?_trim _

/-! ### Reading by words -/

/-- What lines come to by their words. -/
structure Reading where
  /-- The words that a tag before the lines would take. -/
  lead : List (List Char)
  /-- The tags, each with the words of its body. -/
  tags : List (List Char × List (List Char))

def readLine : Line → Reading → Reading
  | .tag name body, r => ⟨[], (name, words body ++ r.lead) :: r.tags⟩
  | .blank, r => ⟨[], r.tags⟩
  | .text s, r => ⟨words s ++ r.lead, r.tags⟩

def reading (ls : List Line) : Reading := ls.foldr readLine ⟨[], []⟩

theorem reading_eq (ls : List Line) :
    reading ls =
      ⟨(leadingText ls).flatMap words, (tagsOf ls).map fun t => (t.name, words t.body)⟩ := by
  induction ls with
  | nil => rfl
  | cons l ls ih =>
    rw [reading, List.foldr_cons, ← reading, ih]
    cases l with
    | tag name body => simp [readLine, leadingText, tagsOf, words_append_flatMap]
    | blank => rfl
    | text s => simp [readLine, leadingText, tagsOf]

/-- A tag gives what its words give. -/
theorem annotation?_eq_unwords (t : Tag) :
    t.annotation? = Tag.annotation? ⟨t.name, unwords (words t.body)⟩ := by
  have hws : ∀ w ∈ words t.body, IsWord w := fun w hw => isWord_of_mem_words hw
  by_cases hname : t.name ∈ understood
  · obtain ⟨note, hgives⟩ := exists_gives hname (words t.body)
    have hbody : t.annotation? = some note := hgives.annotation?_eq rfl hws
    rw [hbody, hgives.annotation?_eq (words_unwords_of_isWord hws) hws]
  · have hnone : t.annotation? = none := annotation?_eq_none hname t.body
    rw [hnone, annotation?_eq_none hname]

theorem annotations_eq (doc : String) :
    annotations doc = (reading (allLines doc.toList)).tags.filterMap fun t =>
      Tag.annotation? ⟨t.1, unwords t.2⟩ := by
  rw [annotations, tags_eq, reading_eq, List.filterMap_map]
  exact List.filterMap_congr fun t _ => annotation?_eq_unwords t

/-- What a line comes to that has these words, its decoration being gone. -/
def readWords : List (List Char) → Reading → Reading
  | [], r => ⟨[], r.tags⟩
  | ('@' :: name) :: ws, r => ⟨[], (name, ws ++ r.lead) :: r.tags⟩
  | ws, r => ⟨ws ++ r.lead, r.tags⟩

theorem readWords_plain {w : List Char} (h : w.head? ≠ some '@') (ws : List (List Char))
    (r : Reading) : readWords (w :: ws) r = ⟨w :: ws ++ r.lead, r.tags⟩ := by
  refine readWords.eq_3 (w :: ws) r (by simp) ?_
  rintro name ws' ⟨⟩
  exact h rfl

theorem readLine_ofText {s : List Char} (h : ∀ c ∈ s.head?, isBlank c = false) :
    readLine (Line.ofText s) = readWords (words s) := by
  funext r
  cases s with
  | nil => rfl
  | cons c s =>
    rw [words_cons (h c rfl)]
    by_cases hc : c = '@'
    · subst hc
      rw [Line.ofText, readLine, words_trim, readWords]
    · rw [ofText_of_plain (List.cons_ne_nil _ _) (by simpa using hc), readLine,
        readWords_plain (by simpa using hc), words_cons (h c rfl)]

/-- A line is read by its words. -/
theorem readLine_lineOf (l : List Char) :
    readLine (lineOf l) = readWords (bareWords (words l)) := by
  rw [lineOf, undecorate_dropReturn, readLine_ofText (isBlank_of_head?_undecorate l),
    words_undecorate]

/-! ### Lines in a text -/

/-- A line starts after the text `a`. -/
def StartsLine (a : List Char) : Prop := a = [] ∨ ∃ r, a = r ++ ['\n']

/-- A line ends before the text `b`. -/
def EndsLine (b : List Char) : Prop := b = [] ∨ (∃ r, b = '\n' :: r) ∨ ∃ r, b = '\r' :: '\n' :: r

theorem StartsLine.eq_nil {a l : List Char} (h : StartsLine (a ++ l)) (hl : '\n' ∉ l) : l = [] := by
  rcases List.eq_nil_or_concat l with rfl | ⟨l, c, rfl⟩
  · rfl
  · rw [List.concat_eq_append] at h hl
    rcases h with h | ⟨r, h⟩
    · simp at h
    · rw [← List.append_assoc] at h
      have hlast := (List.append_inj' h rfl).2
      simp [hlast] at hl

theorem EndsLine.allBlank {l b : List Char} (h : EndsLine (l ++ b)) (hl : '\n' ∉ l) :
    AllBlank l := by
  cases l with
  | nil => exact nofun
  | cons c l =>
    rcases h with h | ⟨r, h⟩ | ⟨r, h⟩
    · cases h
    · cases h
      simp at hl
    · -- a carriage return, and then nothing more of the line
      obtain ⟨rfl, h⟩ := List.cons_eq_cons.mp h
      cases l with
      | nil => simp [AllBlank, isBlank]
      | cons d l =>
        cases h
        simp at hl

/-- The first line of a text, up to its line feed. -/
theorem exists_first_line (b : List Char) :
    ∃ l rest, b = l ++ rest ∧ '\n' ∉ l ∧ (rest = [] ∨ ∃ r, rest = '\n' :: r) := by
  by_cases h : '\n' ∈ b
  · obtain ⟨l, r, hb, hl⟩ := List.eq_append_cons_of_mem h
    exact ⟨l, '\n' :: r, hb, hl, .inr ⟨r, rfl⟩⟩
  · exact ⟨b, [], (List.append_nil b).symm, h, .inl rfl⟩

/-- The last line of a text, from after its line feed. -/
theorem exists_last_line (a : List Char) :
    ∃ rest l, a = rest ++ l ∧ '\n' ∉ l ∧ StartsLine rest := by
  obtain ⟨l, rest, ha, hl, hrest⟩ := exists_first_line a.reverse
  refine ⟨rest.reverse, l.reverse, ?_, by simpa using hl, ?_⟩
  · rw [← List.reverse_append, ← ha, List.reverse_reverse]
  · refine hrest.imp (fun h => by simp [h]) ?_
    rintro ⟨r, rfl⟩
    exact ⟨r.reverse, List.reverse_cons⟩

theorem allLines_of_not_mem {l : List Char} (h : '\n' ∉ l) : allLines l = [lineOf l] := by
  rw [allLines, List.splitOn_eq_singleton h, List.map_singleton]

/-- Whole lines may be exchanged for others that come to the same. -/
theorem reading_exchange {a b m m' : List Char} (ha : StartsLine a)
    (hb : b = [] ∨ ∃ r, b = '\n' :: r)
    (h : ∀ r, (allLines m).foldr readLine r = (allLines m').foldr readLine r) :
    reading (allLines (a ++ m ++ b)) = reading (allLines (a ++ m' ++ b)) := by
  have hafter : ∃ after, ∀ m, allLines (m ++ b) = allLines m ++ after := by
    rcases hb with rfl | ⟨r, rfl⟩
    · exact ⟨[], fun m => by simp⟩
    · exact ⟨allLines r, fun m => allLines_append m r⟩
  have hbefore : ∃ before, ∀ m, allLines (a ++ m) = before ++ allLines m := by
    rcases ha with rfl | ⟨r, rfl⟩
    · exact ⟨[], fun m => rfl⟩
    · refine ⟨allLines r, fun m => ?_⟩
      rw [List.append_assoc, List.singleton_append, allLines_append]
  obtain ⟨after, hafter⟩ := hafter
  obtain ⟨before, hbefore⟩ := hbefore
  rw [hafter, hafter, hbefore, hbefore, reading, reading, List.foldr_append, List.foldr_append,
    List.foldr_append, List.foldr_append, h]

/-! ### Changes of layout -/

/-- Blanks within a line. -/
def IsGap (gap : List Char) : Prop := ∀ c ∈ gap, isBlank c = true ∧ c ≠ '\n'

instance : DecidablePred IsGap := fun gap => List.decidableBAll _ gap

theorem IsGap.allBlank {gap : List Char} (h : IsGap gap) : AllBlank gap := fun c hc => (h c hc).1

theorem IsGap.not_mem {gap : List Char} (h : IsGap gap) : '\n' ∉ gap := fun hmem =>
  (h _ hmem).2 rfl

/-- Blanks may be exchanged for others between two words, and for none at an end of a line. -/
theorem reading_gap {a b gap gap' : List Char} (hgap : IsGap gap) (hgap' : IsGap gap')
    (h : (gap ≠ [] ∧ gap' ≠ []) ∨ StartsLine a ∨ EndsLine b) :
    reading (allLines (a ++ gap ++ b)) = reading (allLines (a ++ gap' ++ b)) := by
  obtain ⟨a, l, rfl, hl, ha⟩ := exists_last_line a
  obtain ⟨k, b, rfl, hk, hb⟩ := exists_first_line b
  have hends : (gap ≠ [] ∧ gap' ≠ []) ∨ AllBlank l ∨ AllBlank k := by
    refine h.imp_right (Or.imp (fun hstart => ?_) fun hend => hend.allBlank hk)
    rw [hstart.eq_nil hl]
    exact nofun
  have hline : ∀ g, IsGap g → (g ≠ [] ∨ AllBlank l ∨ AllBlank k) → ∀ r,
      (allLines (l ++ g ++ k)).foldr readLine r = readWords (bareWords (words l ++ words k)) r := by
    intro g hg hne r
    have hfeed : '\n' ∉ l ++ g ++ k := by simp [hl, hg.not_mem, hk]
    rw [allLines_of_not_mem hfeed, List.foldr_cons, List.foldr_nil, readLine_lineOf,
      words_gap hg.allBlank hne]
  have hshape : ∀ g, a ++ l ++ g ++ (k ++ b) = a ++ (l ++ g ++ k) ++ b := by simp
  rw [hshape, hshape]
  refine reading_exchange ha hb fun r => ?_
  rw [hline gap hgap (hends.imp_left And.left), hline gap' hgap' (hends.imp_left And.right)]

/-- The text of the line `l` runs on at `b`: the last character of the one and the first of the
other are text, that is neither blank nor decoration, and no tag starts there. A closing mark is
decoration unless it is also part of an opening one. -/
structure RunsOn (l b : List Char) : Prop where
  oneLine : '\n' ∉ l
  shown : undecorate l ≠ []
  ends : ∀ c ∈ l.getLast?, isBlank c = false
  unclosed : ['*', '/'] <:+ l → trimStart l = ['/', '*', '*', '/']
  starts : ∃ c r, b = c :: r ∧ isBlank c = false ∧ c ≠ '*' ∧ c ≠ '@'
  unopened : ¬ ['/', '*', '*'] <+: b

theorem RunsOn.bareWords_ne_nil {l b : List Char} (h : RunsOn l b) : bareWords (words l) ≠ [] := by
  obtain ⟨c, r, hcr⟩ := List.exists_cons_of_ne_nil h.shown
  have hc := isBlank_of_head?_undecorate l
  rw [hcr] at hc
  rw [← words_undecorate, hcr, words_cons (hc c rfl)]
  exact List.cons_ne_nil _ _

theorem RunsOn.peelLast_eq {l b : List Char} (h : RunsOn l b) :
    peelLast ['*', '/'] (peelFirst ['/', '*', '*'] (words l)) =
      peelFirst ['/', '*', '*'] (words l) := by
  rw [← words_trimStart l]
  by_cases hmark : trimStart l = ['/', '*', '*', '/']
  · rw [hmark]
    decide
  · have hsuffix : (stripPrefix? ['/', '*', '*'] (trimStart l)).getD (trimStart l) <:+ l :=
      (stripPrefix?_isSuffix _ _).trans (List.dropWhile_suffix _)
    rw [← words_stripPrefix (by decide) (isBlank_of_head?_trimStart l)]
    exact peelLast_words (by decide) (isBlank_of_getLast?_isSuffix hsuffix h.ends)
      fun hclosed => hmark (h.unclosed (hclosed.trans hsuffix))

/-- What remains of a line without a closing mark, if the line starts with something else. -/
theorem exists_unclosed {c : Char} (hc : isBlank c = false) (hstar : c ≠ '*') (r : List Char) :
    ∃ t, peelLast ['*', '/'] (words (c :: r)) = words (c :: t) := by
  have hne : trimEnd (c :: r) ≠ [] := by
    intro hnil
    have hwords := words_trimEnd (c :: r)
    rw [hnil, words_cons hc] at hwords
    cases hwords
  have hprefix := (stripSuffix?_isPrefix ['*', '/'] (trimEnd (c :: r))).trans (trimEnd_isPrefix _)
  rw [← words_trimEnd, ← words_stripSuffix (by decide) (isBlank_of_getLast?_trimEnd (c :: r))]
  rcases List.prefix_cons_iff.mp hprefix with hnil | ⟨t, ht, -⟩
  · -- then the line would be the mark
    exfalso
    cases h : stripSuffix? ['*', '/'] (trimEnd (c :: r)) with
    | none => exact hne (by rwa [h] at hnil)
    | some s =>
      rw [h, Option.getD_some] at hnil
      have hmark := trimEnd_isPrefix (c :: r)
      rw [stripSuffix?_eq_some_iff.mp h, hnil, List.nil_append, List.cons_prefix_cons] at hmark
      exact hstar hmark.1.symm
  · exact ⟨t, by rw [ht]⟩

/-- Of a line on which text runs on, only a closing mark is no text. -/
theorem RunsOn.exists_bareWords {l k b : List Char} (h : RunsOn l (k ++ b)) (hk : k ≠ []) :
    ∃ w ws, w.head? ≠ some '@' ∧ bareWords (words k) = w :: ws ∧
      peelLast ['*', '/'] (words k) = w :: ws := by
  obtain ⟨c, r, rfl⟩ := List.exists_cons_of_ne_nil hk
  obtain ⟨c', r', hcr, hc, hstar, htag⟩ := h.starts
  obtain ⟨rfl, -⟩ := List.cons_eq_cons.mp hcr
  obtain ⟨t, ht⟩ := exists_unclosed hc hstar r
  have hhead : ∀ s : List Char, ∀ d ∈ (c :: s).head?, isBlank d = false := by
    rintro s d ⟨rfl⟩
    exact hc
  have hopening : peelFirst ['/', '*', '*'] (words (c :: r)) = words (c :: r) :=
    peelFirst_words (by decide) (hhead r) fun hopen =>
      h.unopened (hopen.trans (List.prefix_append _ _))
  have hplain : peelFirst ['*'] (words (c :: t)) = words (c :: t) := by
    refine peelFirst_words (by decide) (hhead t) fun hopen => hstar ?_
    exact (List.cons_prefix_cons.mp hopen).1.symm
  rw [bareWords, hopening, ht, hplain, words_cons hc]
  exact ⟨_, _, by simpa using htag, rfl, rfl⟩

/-- The words of joined lines are those of the one and those of the other. -/
theorem RunsOn.bareWords_append {l k b : List Char} (h : RunsOn l (k ++ b)) (hk : k ≠ []) :
    bareWords (words l ++ words k) = bareWords (words l) ++ bareWords (words k) := by
  obtain ⟨w, ws, -, hbare, hclosing⟩ := h.exists_bareWords hk
  have hne := h.bareWords_ne_nil
  have hl : words l ≠ [] := by
    intro hnil
    rw [hnil] at hne
    exact hne rfl
  have hfirst : peelFirst ['/', '*', '*'] (words l) ≠ [] := by
    intro hnil
    rw [bareWords, hnil] at hne
    exact hne rfl
  have hwords : words k ≠ [] := by
    intro hnil
    rw [hnil] at hbare
    cases hbare
  rw [hbare, ← hclosing, bareWords, bareWords, peelFirst_append hl, peelLast_append _ hwords,
    peelFirst_append hfirst, h.peelLast_eq]

theorem readWords_append {us vs : List (List Char)} {v : List Char} (hus : us ≠ [])
    (hv : v.head? ≠ some '@') (r : Reading) :
    readWords (us ++ v :: vs) r = readWords us (readWords (v :: vs) r) := by
  obtain ⟨u, us, rfl⟩ := List.exists_cons_of_ne_nil hus
  rw [readWords_plain hv]
  by_cases hu : u.head? = some '@'
  · obtain ⟨name, rfl⟩ := List.head?_eq_some_iff.mp hu
    simp [readWords]
  · rw [List.cons_append, readWords_plain hu, readWords_plain hu]
    simp

/-- A line may be joined with the one that runs on from it. -/
theorem reading_join {a l gap gap' joint b : List Char} (ha : StartsLine a) (h : RunsOn l b)
    (hgap : IsGap gap) (hgap' : IsGap gap') (hjoint : IsGap joint) (hne : joint ≠ []) :
    reading (allLines (a ++ l ++ gap ++ '\n' :: (gap' ++ b))) =
      reading (allLines (a ++ l ++ joint ++ b)) := by
  obtain ⟨k, b, rfl, hk, hb⟩ := exists_first_line b
  have hkne : k ≠ [] := by
    rintro rfl
    obtain ⟨c, r, hcr, hc, -⟩ := h.starts
    rcases hb with rfl | ⟨r', rfl⟩
    · cases hcr
    · obtain ⟨rfl, -⟩ := List.cons_eq_cons.mp hcr
      exact absurd hc (by decide)
  have hfirst : '\n' ∉ l ++ gap := by simp [h.oneLine, hgap.not_mem]
  have hsecond : '\n' ∉ gap' ++ k := by simp [hgap'.not_mem, hk]
  have hjoined : '\n' ∉ l ++ joint ++ k := by simp [h.oneLine, hjoint.not_mem, hk]
  have hbefore : a ++ l ++ gap ++ '\n' :: (gap' ++ (k ++ b)) =
      a ++ ((l ++ gap) ++ '\n' :: (gap' ++ k)) ++ b := by simp
  have hafter : a ++ l ++ joint ++ (k ++ b) = a ++ (l ++ joint ++ k) ++ b := by simp
  rw [hbefore, hafter]
  refine reading_exchange ha hb fun r => ?_
  obtain ⟨w, ws, hw, hbare, -⟩ := h.exists_bareWords hkne
  rw [allLines_append, allLines_of_not_mem hfirst, allLines_of_not_mem hsecond,
    allLines_of_not_mem hjoined, List.singleton_append, List.foldr_cons, List.foldr_cons,
    List.foldr_cons, List.foldr_nil, readLine_lineOf, readLine_lineOf, readLine_lineOf,
    hgap.allBlank.words_append, hgap'.allBlank.append_words, words_gap hjoint.allBlank (.inl hne),
    h.bareWords_append hkne, hbare, readWords_append h.bareWords_ne_nil hw]

/-- One change of layout. -/
inductive Relaid : List Char → List Char → Prop where
  /-- A line feed is written with a carriage return before it. -/
  | lineEnd (a b : List Char) : Relaid (a ++ '\n' :: b) (a ++ '\r' :: '\n' :: b)
  /-- Blanks are put at the start of a line. -/
  | lineStart {a gap : List Char} (b : List Char) (ha : StartsLine a) (hgap : IsGap gap) :
      Relaid (a ++ b) (a ++ gap ++ b)
  /-- Blanks are put at the end of a line. -/
  | lineStop (a : List Char) {gap b : List Char} (hb : EndsLine b) (hgap : IsGap gap) :
      Relaid (a ++ b) (a ++ gap ++ b)
  /-- Blanks are exchanged for others. -/
  | between (a : List Char) {gap gap' : List Char} (b : List Char) (hgap : IsGap gap)
      (hne : gap ≠ []) (hgap' : IsGap gap') (hne' : gap' ≠ []) :
      Relaid (a ++ gap ++ b) (a ++ gap' ++ b)
  /-- A line feed, and the blanks around it, are exchanged for blanks where text runs on. -/
  | join {a l gap gap' joint b : List Char} (ha : StartsLine a) (h : RunsOn l b)
      (hgap : IsGap gap) (hgap' : IsGap gap') (hjoint : IsGap joint) (hne : joint ≠ []) :
      Relaid (a ++ l ++ gap ++ '\n' :: (gap' ++ b)) (a ++ l ++ joint ++ b)

theorem Relaid.reading_eq {s t : List Char} (h : Relaid s t) :
    reading (allLines s) = reading (allLines t) := by
  have hnone : IsGap [] := nofun
  cases h with
  | lineEnd a b =>
    have hreturn : IsGap ['\r'] := by decide
    have := reading_gap (a := a) hnone hreturn (.inr (.inr (.inr (.inl ⟨b, rfl⟩))))
    simpa using this
  | lineStart b ha hgap =>
    have := reading_gap (b := b) hnone hgap (.inr (.inl ha))
    simpa using this
  | lineStop a hb hgap =>
    have := reading_gap (a := a) hnone hgap (.inr (.inr hb))
    simpa using this
  | between a b hgap hne hgap' hne' => exact reading_gap hgap hgap' (.inl ⟨hne, hne'⟩)
  | join ha h hgap hgap' hjoint hne => exact reading_join ha h hgap hgap' hjoint hne

theorem reading_eq_of_eqvGen {s t : List Char} (h : Relation.EqvGen Relaid s t) :
    reading (allLines s) = reading (allLines t) := by
  induction h with
  | rel s t h => exact h.reading_eq
  | refl s => rfl
  | symm s t _ ih => exact ih.symm
  | trans s t u _ _ ih ih' => exact ih.trans ih'

/-- **Layout is of no consequence**: however many line ends, blanks at the ends of lines, and blanks
between words are changed, the block is read the same. -/
theorem reader_relaid {doc doc' : String} (h : Relation.EqvGen Relaid doc.toList doc'.toList) :
    reader doc = reader doc' := by
  rw [reader, reader, annotations_eq, annotations_eq, reading_eq_of_eqvGen h]

/-- A carriage return before a line feed, blanks before a line, other blanks between two words, and
a line joined with the next. -/
theorem reader_relaid_sum :
    Relation.EqvGen Relaid "/**\n@param a\n $x".toList "/**\r\n\t@param  a $x".toList ∧
      reader "/**\n@param a\n $x" = reader "/**\r\n\t@param  a $x" := by
  have hend : Relaid "/**\n@param a\n $x".toList "/**\r\n@param a\n $x".toList :=
    Relaid.lineEnd "/**".toList "@param a\n $x".toList
  have hstart : Relaid "/**\r\n@param a\n $x".toList "/**\r\n\t@param a\n $x".toList :=
    @Relaid.lineStart "/**\r\n".toList "\t".toList "@param a\n $x".toList
      (.inr ⟨"/**\r".toList, rfl⟩) (by decide)
  have hbetween : Relaid "/**\r\n\t@param a\n $x".toList "/**\r\n\t@param  a\n $x".toList :=
    @Relaid.between "/**\r\n\t@param".toList " ".toList "  ".toList "a\n $x".toList
      (by decide) (by decide) (by decide) (by decide)
  have hjoin : Relaid "/**\r\n\t@param  a\n $x".toList "/**\r\n\t@param  a $x".toList := by
    have hlast : "\t@param  a".toList.getLast? = some 'a' := by decide
    have hblank : isBlank 'a' = false := by decide
    have hruns : RunsOn "\t@param  a".toList "$x".toList :=
      ⟨by decide, by decide +kernel, by simp only [hlast, Option.mem_some_iff, forall_eq', hblank],
        by decide, ⟨'$', "x".toList, rfl, by decide⟩, by decide⟩
    exact @Relaid.join "/**\r\n".toList _ [] " ".toList " ".toList _
      (.inr ⟨"/**\r".toList, rfl⟩) hruns (by decide) (by decide) (by decide) (by decide)
  have hall := ((Relation.EqvGen.rel _ _ hend).trans _ _ _ (.rel _ _ hstart)).trans _ _ _
    ((Relation.EqvGen.rel _ _ hbetween).trans _ _ _ (.rel _ _ hjoin))
  exact ⟨hall, reader_relaid hall⟩

end ClassSurface.DocBlock
