import ClassSurface.Proofs.Text.Words
import Mathlib.Data.List.TakeWhile

/-! # Proofs.Text.Blanks — what becomes of words when a text is cut or trimmed

* `words_gap`: blanks may be put wherever they separate no word, and replaced by other blanks.
* `words_trim`, `words_reverse`: trimming leaves the words alone, and reversing reverses them.
* `words_stripPrefix`, `words_stripSuffix`: a mark without blanks at an end of a text is a mark at
  the end of a word.
-/

namespace ClassSurface.Text

/-! ### Gaps -/

/-- There are only blanks in the text. -/
def AllBlank (s : List Char) : Prop := ∀ c ∈ s, isBlank c = true

theorem words_append_of_head {s t : List Char} (h : ∀ c ∈ t.head?, isBlank c = true) :
    words (s ++ t) = words s ++ words t := by
  cases t with
  | nil => simp [words]
  | cons c t =>
    have hc := h c rfl
    have hskip : words (c :: t) = words t := words_append_blank hc [] t
    rw [words_append_blank hc, hskip]

theorem AllBlank.words_eq {s : List Char} (h : AllBlank s) : words s = [] := by
  induction s with
  | nil => rfl
  | cons c s ih =>
    obtain ⟨hc, hs⟩ := List.forall_mem_cons.mp h
    have hskip : words (c :: s) = words s := words_append_blank hc [] s
    rw [hskip, ih hs]

theorem AllBlank.words_append {b : List Char} (h : AllBlank b) (s : List Char) :
    words (s ++ b) = words s := by
  rw [words_append_of_head fun c hc => h c (List.mem_of_mem_head? hc), h.words_eq, List.append_nil]

theorem AllBlank.append_words {b : List Char} (h : AllBlank b) (s : List Char) :
    words (b ++ s) = words s := by
  induction b with
  | nil => rfl
  | cons c b ih =>
    obtain ⟨hc, hb⟩ := List.forall_mem_cons.mp h
    have hskip : words (c :: (b ++ s)) = words (b ++ s) := words_append_blank hc [] (b ++ s)
    rw [List.cons_append, hskip, ih hb]

/-- Blanks part what stands before them from what follows, if there are any or if there is nothing
to part. -/
theorem words_gap {gap s t : List Char} (hgap : AllBlank gap)
    (h : gap ≠ [] ∨ AllBlank s ∨ AllBlank t) : words (s ++ gap ++ t) = words s ++ words t := by
  rcases h with h | h | h
  · obtain ⟨c, gap, rfl⟩ := List.exists_cons_of_ne_nil h
    obtain ⟨hc, hgap⟩ := List.forall_mem_cons.mp hgap
    rw [List.append_assoc, List.cons_append, words_append_blank hc, AllBlank.append_words hgap]
  · rw [List.append_assoc, h.append_words, hgap.append_words, h.words_eq, List.nil_append]
  · rw [h.words_append, hgap.words_append, h.words_eq, List.append_nil]

/-! ### Ends of texts -/

theorem words_trimStart (s : List Char) : words (trimStart s) = words s := by
  have hblank : AllBlank (s.takeWhile isBlank) := fun c hc => List.mem_takeWhile_imp hc
  have hsplit : s.takeWhile isBlank ++ trimStart s = s := List.takeWhile_append_dropWhile
  rw [← hblank.append_words (trimStart s), hsplit]

theorem words_trimEnd (s : List Char) : words (trimEnd s) = words s := by
  have hblank : AllBlank (s.reverse.takeWhile isBlank).reverse := fun c hc =>
    List.mem_takeWhile_imp (List.mem_reverse.mp hc)
  have hsplit : trimEnd s ++ (s.reverse.takeWhile isBlank).reverse = s := by
    rw [trimEnd, ← List.reverse_append, List.takeWhile_append_dropWhile, List.reverse_reverse]
  rw [← hblank.words_append (trimEnd s), hsplit]

theorem words_trim (s : List Char) : words (trim s) = words s := by
  rw [trim, words_trimEnd, words_trimStart]

theorem isBlank_of_head?_trimStart (s : List Char) :
    ∀ c ∈ (trimStart s).head?, isBlank c = false := by
  intro c hc
  have hnot := List.head?_dropWhile_not isBlank s
  rw [← trimStart, Option.mem_def.mp hc] at hnot
  simpa using hnot

theorem isBlank_of_getLast?_trimEnd (s : List Char) :
    ∀ c ∈ (trimEnd s).getLast?, isBlank c = false := by
  rw [trimEnd, List.getLast?_reverse]
  exact isBlank_of_head?_trimStart s.reverse

theorem isBlank_of_head?_trim (s : List Char) : ∀ c ∈ (trim s).head?, isBlank c = false := by
  intro c hc
  refine isBlank_of_head?_trimStart s c ?_
  obtain ⟨t, ht⟩ := trimEnd_isPrefix (trimStart s)
  rw [← ht, List.head?_append]
  rw [trim] at hc
  rw [Option.mem_def.mp hc]
  rfl

/-! ### Words from either end -/

theorem isBlank_of_head?_dropWhile (s : List Char) :
    ∀ c ∈ (s.dropWhile (! isBlank ·)).head?, isBlank c = true := by
  intro c hc
  have hnot := List.head?_dropWhile_not (! isBlank ·) s
  rw [Option.mem_def.mp hc] at hnot
  simpa using hnot

/-- The first word of a text that starts with one. -/
theorem words_cons {c : Char} (hc : isBlank c = false) (s : List Char) :
    words (c :: s) = (c :: s.takeWhile (! isBlank ·)) :: words (s.dropWhile (! isBlank ·)) := by
  have hword : ∀ d ∈ c :: s.takeWhile (! isBlank ·), isBlank d = false := by
    refine List.forall_mem_cons.mpr ⟨hc, fun d hd => ?_⟩
    simpa using List.mem_takeWhile_imp hd
  have hsplit : c :: s = (c :: s.takeWhile (! isBlank ·)) ++ s.dropWhile (! isBlank ·) := by
    rw [List.cons_append, List.takeWhile_append_dropWhile]
  rw [hsplit, words_append_of_head (isBlank_of_head?_dropWhile s), words_of_blankless hword]
  rfl

theorem words_reverse (s : List Char) :
    words s.reverse = ((words s).map List.reverse).reverse := by
  by_cases h : ∃ c ∈ s, isBlank c = true
  · -- a blank cuts the text in two, on both sides of the equation
    obtain ⟨c, hc, hblank⟩ := h
    obtain ⟨t, u, rfl⟩ := List.append_of_mem hc
    rw [List.reverse_append, List.reverse_cons, List.append_assoc, List.singleton_append,
      words_append_blank hblank, words_append_blank hblank, words_reverse t, words_reverse u,
      List.map_append, List.reverse_append]
  · have hword : ∀ c ∈ s, isBlank c = false := fun c hc =>
      Bool.eq_false_iff.mpr fun hblank => h ⟨c, hc, hblank⟩
    rw [words_of_blankless hword, words_of_blankless fun c hc => hword c (List.mem_reverse.mp hc)]
    cases s <;> simp
termination_by s.length

/-! ### Marks at the ends -/

theorem stripPrefix?_append {p rest : List Char} (h : ∀ c ∈ rest.head?, c ∉ p) (s : List Char) :
    stripPrefix? p (s ++ rest) = (stripPrefix? p s).map (· ++ rest) := by
  induction p generalizing s with
  | nil => simp [stripPrefix?]
  | cons a p ih =>
    have hp : ∀ c ∈ rest.head?, c ∉ p := fun c hc hmem => h c hc (List.mem_cons_of_mem _ hmem)
    cases s with
    | nil =>
      cases rest with
      | nil => rfl
      | cons c rest =>
        have hne : a ≠ c := fun heq => h c rfl (heq ▸ List.mem_cons_self)
        simp [stripPrefix?, hne]
    | cons c s =>
      by_cases hac : a = c
      · rw [List.cons_append, stripPrefix?, stripPrefix?, if_pos hac, if_pos hac, ih hp]
      · rw [List.cons_append, stripPrefix?, stripPrefix?, if_neg hac, if_neg hac]
        rfl

/-- The first word loses the mark `p`, and is lost if nothing else is in it. -/
def peelFirst (p : List Char) : List (List Char) → List (List Char)
  | [] => []
  | w :: ws => words ((stripPrefix? p w).getD w) ++ ws

/-- The last word loses the mark `p`, and is lost if nothing else is in it. -/
def peelLast (p : List Char) (ws : List (List Char)) : List (List Char) :=
  ((peelFirst p.reverse ((ws.map List.reverse).reverse)).map List.reverse).reverse

variable {p : List Char}

theorem words_stripPrefix (hp : IsWord p) {s : List Char}
    (hs : ∀ c ∈ s.head?, isBlank c = false) :
    words ((stripPrefix? p s).getD s) = peelFirst p (words s) := by
  cases s with
  | nil => cases p <;> rfl
  | cons c s =>
    have hrest := isBlank_of_head?_dropWhile s
    have hoff : ∀ d ∈ (s.dropWhile (! isBlank ·)).head?, d ∉ p := by
      intro d hd hmem
      exact absurd (hp.2 d hmem) (by simp [hrest d hd])
    -- the mark has no blank, so it is found in the first word or not at all
    have hstrip := stripPrefix?_append hoff (c :: s.takeWhile (! isBlank ·))
    rw [List.cons_append, List.takeWhile_append_dropWhile] at hstrip
    rw [words_cons (hs c rfl), peelFirst, ← words_append_of_head hrest, hstrip]
    cases stripPrefix? p (c :: s.takeWhile (! isBlank ·)) with
    | none => rw [Option.map_none, Option.getD_none, Option.getD_none, List.cons_append,
        List.takeWhile_append_dropWhile]
    | some r => rfl

theorem words_stripSuffix (hp : IsWord p) {s : List Char}
    (hs : ∀ c ∈ s.getLast?, isBlank c = false) :
    words ((stripSuffix? p s).getD s) = peelLast p (words s) := by
  have hmirror : (stripSuffix? p s).getD s =
      ((stripPrefix? p.reverse s.reverse).getD s.reverse).reverse := by
    rw [stripSuffix?]
    cases stripPrefix? p.reverse s.reverse <;> simp
  rw [hmirror, words_reverse, words_stripPrefix (by simpa [IsWord] using hp) (by simpa using hs),
    words_reverse, peelLast]

theorem stripPrefix?_eq_none {s : List Char} (h : ¬ p <+: s) : stripPrefix? p s = none := by
  refine Option.eq_none_iff_forall_ne_some.mpr fun r hr => h ?_
  exact ⟨r, (stripPrefix?_eq_some_iff.mp hr).symm⟩

theorem peelFirst_words (hp : IsWord p) {s : List Char}
    (hs : ∀ c ∈ s.head?, isBlank c = false) (h : ¬ p <+: s) : peelFirst p (words s) = words s := by
  rw [← words_stripPrefix hp hs, stripPrefix?_eq_none h, Option.getD_none]

theorem peelLast_words (hp : IsWord p) {s : List Char}
    (hs : ∀ c ∈ s.getLast?, isBlank c = false) (h : ¬ p <:+ s) :
    peelLast p (words s) = words s := by
  rw [← words_stripSuffix hp hs, stripSuffix?_eq_none h, Option.getD_none]

theorem peelFirst_append {us : List (List Char)} (h : us ≠ []) (vs : List (List Char)) :
    peelFirst p (us ++ vs) = peelFirst p us ++ vs := by
  obtain ⟨u, us, rfl⟩ := List.exists_cons_of_ne_nil h
  rw [List.cons_append, peelFirst, peelFirst, List.append_assoc]

theorem peelLast_append (us : List (List Char)) {vs : List (List Char)} (h : vs ≠ []) :
    peelLast p (us ++ vs) = us ++ peelLast p vs := by
  have hne : (vs.map List.reverse).reverse ≠ [] := by simpa using h
  have hback : (us.map List.reverse).map List.reverse = us := by
    simp only [List.map_map, Function.comp_def, List.reverse_reverse, List.map_id']
  rw [peelLast, List.map_append, List.reverse_append, peelFirst_append hne, List.map_append,
    List.reverse_append, List.map_reverse, hback, List.reverse_reverse, peelLast]

end ClassSurface.Text
