/-! # Text.Affix — taking a fixed text off the ends of another

`stripPrefix? t s` and `stripSuffix? t s` give what remains of `s`, and nothing if `t` is not there.
-/

namespace ClassSurface.Text

/-- What remains of `s` without the leading `t`. -/
def stripPrefix? : List Char → List Char → Option (List Char)
  | [], s => some s
  | _ :: _, [] => none
  | t :: ts, c :: s => if t = c then stripPrefix? ts s else none

theorem stripPrefix?_eq_some_iff {t s r : List Char} : stripPrefix? t s = some r ↔ s = t ++ r := by
  induction t generalizing s with
  | nil => simp [stripPrefix?]
  | cons a t ih =>
    cases s with
    | nil => simp [stripPrefix?]
    | cons c s =>
      by_cases h : a = c
      · simp [stripPrefix?, h, ih]
      · simp [stripPrefix?, h, Ne.symm h]

/-- What remains of `s` without the trailing `t`. -/
def stripSuffix? (t s : List Char) : Option (List Char) :=
  (stripPrefix? t.reverse s.reverse).map List.reverse

theorem stripSuffix?_eq_some_iff {t s r : List Char} : stripSuffix? t s = some r ↔ s = r ++ t := by
  simp only [stripSuffix?, Option.map_eq_some_iff, stripPrefix?_eq_some_iff]
  constructor
  · rintro ⟨u, hu, rfl⟩
    have := congrArg List.reverse hu
    simpa using this
  · rintro rfl
    exact ⟨r.reverse, by simp, by simp⟩

end ClassSurface.Text
