import Mathlib.Algebra.BigOperators.Group.List.Basic
import Mathlib.Algebra.GroupWithZero.Nat

/-! # Proofs.Text.Paragraphs — blocks of lines are read back from a document

A block is written line by line, each line closed by a line feed, and a further line feed closes the
block. `paragraphs` cuts a text at every two line feeds in a row.

* `map_paragraphs_terminated`: if lines are neither empty nor broken, the paragraphs of a document
  are its blocks, and an empty one at the end.
* `count_feed_terminated`: there are as many line feeds as lines, and one more for each block.
-/

namespace ClassSurface.Text

/-- There is no line feed in the text. -/
def OneLine (s : String) : Prop := '\n' ∉ s.toList

instance : DecidablePred OneLine := fun s => inferInstanceAs (Decidable ('\n' ∉ s.toList))

@[simp] theorem oneLine_append {s t : String} : OneLine (s ++ t) ↔ OneLine s ∧ OneLine t := by
  simp [OneLine]

@[simp] theorem oneLine_ofList {s : List Char} : OneLine (String.ofList s) ↔ '\n' ∉ s := by
  rw [OneLine, String.toList_ofList]

theorem oneLine_intercalate {sep : String} (hsep : OneLine sep) {ls : List String}
    (h : ∀ l ∈ ls, OneLine l) : OneLine (sep.intercalate ls) := by
  induction ls with
  | nil =>
    rw [String.intercalate_nil]
    decide
  | cons l ls ih =>
    obtain ⟨hl, hls⟩ := List.forall_mem_cons.mp h
    cases ls with
    | nil =>
      rw [String.intercalate_singleton]
      exact hl
    | cons l' ls =>
      rw [String.intercalate_cons_cons, oneLine_append, oneLine_append]
      exact ⟨⟨hl, hsep⟩, ih hls⟩

/-! ### Paragraphs -/

/-- The parts that a text falls into when it is cut at every two line feeds in a row. -/
def paragraphs : List Char → List (List Char)
  | [] => [[]]
  | '\n' :: '\n' :: s => [] :: paragraphs s
  | c :: s => (paragraphs s).modifyHead (c :: ·)

theorem paragraphs_cons {c : Char} {s : List Char} (h : c = '\n' → s.head? ≠ some '\n') :
    paragraphs (c :: s) = (paragraphs s).modifyHead (c :: ·) := by
  refine paragraphs.eq_3 c s ?_
  rintro t rfl rfl
  exact h rfl rfl

theorem paragraphs_append {l : List Char} (hl : '\n' ∉ l) (s : List Char) :
    paragraphs (l ++ s) = (paragraphs s).modifyHead (l ++ ·) := by
  induction l with
  | nil => exact (congrFun List.modifyHead_id _).symm
  | cons c l ih =>
    obtain ⟨hc, hl⟩ := not_or.mp (mt List.mem_cons.mpr hl)
    rw [List.cons_append, paragraphs_cons fun h => absurd h.symm hc, ih hl,
      List.modifyHead_modifyHead]
    rfl

/-- Lines that are neither empty nor broken make one paragraph. -/
theorem paragraphs_intercalate {ls : List (List Char)} (hne : ls ≠ [])
    (h : ∀ l ∈ ls, '\n' ∉ l ∧ l ≠ []) (s : List Char) :
    paragraphs (['\n'].intercalate ls ++ '\n' :: '\n' :: s) =
      ['\n'].intercalate ls :: paragraphs s := by
  induction ls with
  | nil => exact absurd rfl hne
  | cons l ls ih =>
    obtain ⟨⟨hl, -⟩, hls⟩ := List.forall_mem_cons.mp h
    cases ls with
    | nil =>
      rw [List.intercalate_singleton, paragraphs_append hl, paragraphs]
      simp
    | cons l' ls =>
      -- the line feed between two lines is followed by the first character of a line
      have hhead : (['\n'].intercalate (l' :: ls) ++ '\n' :: '\n' :: s).head? ≠ some '\n' := by
        obtain ⟨hl', hne'⟩ := hls l' List.mem_cons_self
        obtain ⟨c, l', rfl⟩ := List.exists_cons_of_ne_nil hne'
        have hc : c ≠ '\n' := (List.ne_of_not_mem_cons hl').symm
        cases ls <;> simpa [List.intercalate_cons_cons] using hc
      rw [List.intercalate_cons_cons, List.append_assoc, List.append_assoc, paragraphs_append hl,
        List.singleton_append, paragraphs_cons fun _ => hhead, ih (by simp) hls]
      simp

/-! ### Blocks and documents -/

/-- Each text closed by a line feed: of lines this makes a block, of blocks a document. -/
def terminated (ls : List String) : String := String.join (ls.map (· ++ "\n"))

theorem terminated_cons (l : String) (ls : List String) :
    terminated (l :: ls) = l ++ "\n" ++ terminated ls := by
  rw [terminated, List.map_cons, String.join_cons]
  rfl

/-- A block without its last line feed. -/
theorem terminated_eq {ls : List String} (h : ls ≠ []) :
    terminated ls = "\n".intercalate ls ++ "\n" := by
  induction ls with
  | nil => exact absurd rfl h
  | cons l ls ih =>
    rw [terminated_cons]
    cases ls with
    | nil => simp [terminated]
    | cons l' ls => rw [ih (by simp), String.intercalate_cons_cons, ← String.append_assoc]

/-- Closing texts adds a line feed for each. -/
theorem count_feed_terminated (ls : List String) :
    (terminated ls).toList.count '\n' = (ls.map (·.toList.count '\n')).sum + ls.length := by
  induction ls with
  | nil => rfl
  | cons l ls ih =>
    rw [terminated_cons, String.toList_append, String.toList_append, List.count_append,
      List.count_append, ih, List.map_cons, List.sum_cons, List.length_cons]
    have hfeed : "\n".toList.count '\n' = 1 := by decide
    omega

variable {ls : List String}

theorem count_feed_terminated_lines (h : ∀ l ∈ ls, OneLine l) :
    (terminated ls).toList.count '\n' = ls.length := by
  have hnone : ls.map (·.toList.count '\n') = ls.map fun _ => 0 :=
    List.map_congr_left fun l hl => List.count_eq_zero.mpr (h l hl)
  rw [count_feed_terminated, hnone]
  simp

/-- The lines of a block are read back from it. -/
theorem splitOn_intercalate_feed (hne : ls ≠ []) (h : ∀ l ∈ ls, OneLine l) :
    ("\n".intercalate ls).toList.splitOn '\n' = ls.map String.toList := by
  rw [String.toList_intercalate]
  exact List.splitOn_intercalate '\n' (List.forall_mem_map.mpr h) (by simpa using hne)

/-- The blocks of a document are read back from it. -/
theorem map_paragraphs_terminated {bs : List (List String)}
    (h : ∀ b ∈ bs, b ≠ [] ∧ ∀ l ∈ b, OneLine l ∧ l ≠ "") :
    (paragraphs (terminated (bs.map terminated)).toList).map String.ofList =
      bs.map "\n".intercalate ++ [""] := by
  induction bs with
  | nil => rfl
  | cons b bs ih =>
    obtain ⟨⟨hne, hb⟩, hbs⟩ := List.forall_mem_cons.mp h
    have hlines : ∀ l ∈ b.map String.toList, '\n' ∉ l ∧ l ≠ [] :=
      List.forall_mem_map.mpr fun l hl => ⟨(hb l hl).1, by simpa using (hb l hl).2⟩
    have hblock : (terminated (terminated b :: bs.map terminated)).toList =
        ['\n'].intercalate (b.map String.toList) ++
          '\n' :: '\n' :: (terminated (bs.map terminated)).toList := by
      rw [terminated_cons, terminated_eq hne]
      simp
    have hfirst : String.ofList (['\n'].intercalate (b.map String.toList)) = "\n".intercalate b := by
      refine String.toList_inj.mp ?_
      rw [String.toList_ofList, String.toList_intercalate]
      rfl
    rw [List.map_cons, hblock, paragraphs_intercalate (by simpa using hne) hlines, List.map_cons,
      ih hbs, List.map_cons, List.cons_append, hfirst]

end ClassSurface.Text
