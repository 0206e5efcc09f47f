import ClassSurface.Text.Blank

/-! # Proofs.Text.Words — what is written word by word and line by line is read back

* `words_unwords`: words joined by single spaces are the words of the result.
* `lines_intercalate`: lines joined by line feeds are the lines of the result, up to a carriage
  return at their ends.
* `trim_eq_self`, `trimStart_isPrefix`: what trimming leaves alone, and how it treats leading parts.
-/

namespace ClassSurface.Text

/-- A word is not empty and has no blank in it. -/
def IsWord (w : List Char) : Prop := w ≠ [] ∧ ∀ c ∈ w, isBlank c = false

instance : DecidablePred IsWord := fun w =>
  decidable_of_iff (w ≠ [] ∧ w.all (! isBlank ·) = true) (by simp [IsWord])

theorem IsWord.of_append {s t : List Char} (h : IsWord (s ++ t)) (hne : s ≠ []) : IsWord s :=
  ⟨hne, fun c hc => h.2 c (List.mem_append_left _ hc)⟩

theorem IsWord.feed_not_mem {w : List Char} (h : IsWord w) : '\n' ∉ w := fun hmem =>
  absurd (h.2 _ hmem) (by decide)

/-! ### Words -/

theorem words_append_blank {c : Char} (hc : isBlank c = true) (s t : List Char) :
    words (s ++ c :: t) = words s ++ words t := by
  rw [words, words, words, List.splitOnP_append_cons s t hc, List.filter_append]

theorem words_of_blankless {w : List Char} (h : ∀ c ∈ w, isBlank c = false) :
    words w = [w].filter (! ·.isEmpty) := by
  rw [words, List.splitOnP_eq_singleton h]

theorem isBlank_of_mem_splitOnP {s : List Char} :
    ∀ w ∈ s.splitOnP isBlank, ∀ c ∈ w, isBlank c = false := by
  induction s with
  | nil => simp
  | cons a s ih =>
    rw [List.splitOnP_cons_eq_if_modifyHead]
    split
    · exact List.forall_mem_cons.mpr ⟨by simp, ih⟩
    · rename_i ha
      obtain ⟨part, parts, hsplit⟩ := List.exists_cons_of_ne_nil (List.splitOnP_ne_nil isBlank s)
      rw [hsplit] at ih ⊢
      obtain ⟨hpart, hrest⟩ := List.forall_mem_cons.mp ih
      refine List.forall_mem_cons.mpr ⟨List.forall_mem_cons.mpr ⟨?_, hpart⟩, hrest⟩
      simpa using ha

theorem isWord_of_mem_words {w s : List Char} (h : w ∈ words s) : IsWord w :=
  ⟨ne_nil_of_mem_words h, isBlank_of_mem_splitOnP w (List.mem_filter.mp h).1⟩

@[simp] theorem unwords_nil : unwords [] = [] := rfl

@[simp] theorem unwords_singleton (w : List Char) : unwords [w] = w := by
  simp [unwords]

theorem unwords_cons_cons (w w' : List Char) (ws : List (List Char)) :
    unwords (w :: w' :: ws) = w ++ ' ' :: unwords (w' :: ws) := by
  rw [unwords, unwords, List.intercalate_cons_cons, List.append_assoc, List.singleton_append]

theorem unwords_append {ws vs : List (List Char)} (hw : ws ≠ []) (hv : vs ≠ []) :
    unwords (ws ++ vs) = unwords ws ++ ' ' :: unwords vs := by
  obtain ⟨v, vs, rfl⟩ := List.exists_cons_of_ne_nil hv
  induction ws with
  | nil => exact absurd rfl hw
  | cons w ws ih =>
    cases ws with
    | nil => simp [unwords_cons_cons]
    | cons w' ws =>
      rw [List.cons_append, List.cons_append, unwords_cons_cons, unwords_cons_cons,
        ← List.cons_append, ih (by simp), List.append_assoc]
      rfl

/-- A word may be cut in two before joining. -/
theorem unwords_cut (ws : List (List Char)) (s t : List Char) (vs : List (List Char)) :
    unwords (ws ++ (s ++ t) :: vs) = unwords (ws ++ [s]) ++ unwords (t :: vs) := by
  have hhead : unwords ((s ++ t) :: vs) = s ++ unwords (t :: vs) := by
    cases vs with
    | nil => simp
    | cons v vs => rw [unwords_cons_cons, unwords_cons_cons, List.append_assoc]
  by_cases h : ws = []
  · rw [h, List.nil_append, List.nil_append, hhead, unwords_singleton]
  · rw [unwords_append h (by simp), unwords_append h (by simp), hhead, unwords_singleton,
      List.append_assoc]
    rfl

theorem mem_unwords {c : Char} {ws : List (List Char)} (h : c ∈ unwords ws) :
    c = ' ' ∨ ∃ w ∈ ws, c ∈ w := by
  induction ws with
  | nil => cases h
  | cons w ws ih =>
    cases ws with
    | nil =>
      rw [unwords_singleton] at h
      exact .inr ⟨w, List.mem_singleton.mpr rfl, h⟩
    | cons w' ws =>
      rw [unwords_cons_cons, List.mem_append, List.mem_cons] at h
      rcases h with h | rfl | h
      · exact .inr ⟨w, List.mem_cons_self, h⟩
      · exact .inl rfl
      · refine (ih h).imp_right fun hex => ?_
        obtain ⟨v, hv, hc⟩ := hex
        exact ⟨v, List.mem_cons_of_mem _ hv, hc⟩

/-- Joining by single spaces and cutting into words gives back what is not empty. -/
theorem words_unwords {ws : List (List Char)} (h : ∀ w ∈ ws, ∀ c ∈ w, isBlank c = false) :
    words (unwords ws) = ws.filter (! ·.isEmpty) := by
  induction ws with
  | nil => rfl
  | cons w ws ih =>
    obtain ⟨hw, hws⟩ := List.forall_mem_cons.mp h
    cases ws with
    | nil => rw [unwords_singleton, words_of_blankless hw]
    | cons w' ws =>
      rw [unwords_cons_cons, words_append_blank (by decide), ih hws, words_of_blankless hw,
        ← List.filter_append, List.singleton_append]

theorem words_unwords_of_isWord {ws : List (List Char)} (h : ∀ w ∈ ws, IsWord w) :
    words (unwords ws) = ws := by
  rw [words_unwords fun w hw => (h w hw).2, List.filter_eq_self]
  intro w hw
  simpa using (h w hw).1

/-- Texts joined by single spaces have their words one after the other. -/
theorem words_append_flatMap (s : List Char) (ts : List (List Char)) :
    words (s ++ ts.flatMap (' ' :: ·)) = words s ++ ts.flatMap words := by
  induction ts generalizing s with
  | nil => simp
  | cons t ts ih =>
    rw [List.flatMap_cons, List.flatMap_cons, List.cons_append, words_append_blank (by decide), ih]

/-! ### Ends of texts -/

/-- A text that neither starts nor ends in a blank is not trimmed. -/
theorem trim_eq_self {s : List Char} (hhead : ∀ c ∈ s.head?, isBlank c = false)
    (hlast : ∀ c ∈ s.getLast?, isBlank c = false) : trim s = s := by
  have hstart : ∀ t : List Char, (∀ c ∈ t.head?, isBlank c = false) → t.dropWhile isBlank = t := by
    intro t ht
    cases t with
    | nil => rfl
    | cons c t => exact List.dropWhile_cons_of_neg (by simp [ht c rfl])
  rw [trim, trimStart, hstart s hhead, trimEnd, hstart s.reverse (by simpa using hlast),
    List.reverse_reverse]

theorem trim_append_blank {c : Char} (hc : isBlank c = true) (s : List Char) :
    trim (s ++ [c]) = trim s := by
  have hlast : List.dropWhile isBlank [c] = [] := by simp [hc]
  rw [trim, trim, trimStart, trimStart, List.dropWhile_append, hlast]
  split
  · rename_i hblank
    rw [List.isEmpty_iff.mp hblank]
  · rw [trimEnd, trimEnd, List.reverse_append, List.reverse_singleton, List.singleton_append,
      List.dropWhile_cons_of_pos hc]

theorem trimEnd_isPrefix (s : List Char) : trimEnd s <+: s := by
  have hsuffix : s.reverse.dropWhile isBlank <:+ s.reverse := List.dropWhile_suffix _
  rw [← List.reverse_reverse s, trimEnd, List.reverse_prefix, List.reverse_reverse]
  exact hsuffix

theorem trimStart_isPrefix {s t : List Char} (h : s <+: t) : trimStart s <+: trimStart t := by
  obtain ⟨u, rfl⟩ := h
  induction s with
  | nil => exact List.nil_prefix
  | cons c s ih =>
    rw [List.cons_append, trimStart, trimStart]
    by_cases hc : isBlank c = true
    · rw [List.dropWhile_cons_of_pos hc, List.dropWhile_cons_of_pos hc]
      exact ih
    · rw [List.dropWhile_cons_of_neg hc, List.dropWhile_cons_of_neg hc]
      exact List.prefix_append _ _

theorem stripSuffix?_isPrefix (t s : List Char) : (stripSuffix? t s).getD s <+: s := by
  cases h : stripSuffix? t s with
  | none => exact List.prefix_rfl
  | some r => exact ⟨t, (stripSuffix?_eq_some_iff.mp h).symm⟩

theorem stripSuffix?_eq_none {t s : List Char} (h : ¬ t <:+ s) : stripSuffix? t s = none := by
  refine Option.eq_none_iff_forall_ne_some.mpr fun r hr => h ?_
  exact ⟨r, (stripSuffix?_eq_some_iff.mp hr).symm⟩

theorem isPrefix_unwords (w : List Char) (ws : List (List Char)) : w <+: unwords (w :: ws) := by
  cases ws with
  | nil => exact ⟨[], by simp⟩
  | cons w' ws => exact ⟨_, (unwords_cons_cons w w' ws).symm⟩

theorem isSuffix_unwords (ws : List (List Char)) (w : List Char) : w <:+ unwords (ws ++ [w]) := by
  by_cases h : ws = []
  · exact ⟨[], by simp [h]⟩
  · exact ⟨unwords ws ++ [' '], by simp [unwords_append h]⟩

/-- Words joined by single spaces start with the first character of a word. -/
theorem isBlank_of_head?_unwords {ws : List (List Char)} (h : ∀ w ∈ ws, IsWord w) :
    ∀ c ∈ (unwords ws).head?, isBlank c = false := by
  cases ws with
  | nil => simp
  | cons w ws =>
    obtain ⟨hne, hw⟩ := h w List.mem_cons_self
    obtain ⟨rest, hrest⟩ := isPrefix_unwords w ws
    rw [← hrest, List.head?_append, List.head?_eq_some_head hne, Option.some_or]
    rintro c ⟨rfl⟩
    exact hw _ (List.head_mem hne)

/-- Words joined by single spaces end with the last character of a word. -/
theorem isBlank_of_getLast?_unwords {ws : List (List Char)} (h : ∀ w ∈ ws, IsWord w) :
    ∀ c ∈ (unwords ws).getLast?, isBlank c = false := by
  rcases List.eq_nil_or_concat ws with rfl | ⟨ws, w, rfl⟩
  · simp
  · obtain ⟨hne, hw⟩ := h w (by simp)
    obtain ⟨rest, hrest⟩ := isSuffix_unwords ws w
    rw [List.concat_eq_append, ← hrest, List.getLast?_append, List.getLast?_eq_some_getLast hne,
      Option.some_or]
    rintro c ⟨rfl⟩
    exact hw _ (List.getLast_mem hne)

/-! ### Lines -/

theorem closeLines_append_singleton {l : List Char} (hl : l ≠ []) (ls : List (List Char)) :
    closeLines (ls ++ [l]) = ls.map dropReturn ++ [l] := by
  induction ls with
  | nil => simp [closeLines, hl]
  | cons k ls ih =>
    have hne : ls ++ [l] ≠ [] := by simp
    obtain ⟨a, as, has⟩ := List.exists_cons_of_ne_nil hne
    rw [List.cons_append, List.map_cons, List.cons_append, ← ih, has]
    rfl

/-- Lines joined by line feeds are read back, the last one if it is not empty. -/
theorem lines_intercalate {ls : List (List Char)} {l : List Char} (hl : l ≠ [])
    (h : ∀ k ∈ ls ++ [l], '\n' ∉ k) :
    lines (['\n'].intercalate (ls ++ [l])) = ls.map dropReturn ++ [l] := by
  rw [lines, List.splitOn_intercalate '\n' h (by simp), closeLines_append_singleton hl]

end ClassSurface.Text
