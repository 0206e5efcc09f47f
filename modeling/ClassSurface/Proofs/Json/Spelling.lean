import ClassSurface.Json.Reader
import Mathlib.Data.List.Forall2

/-! # Proofs.Json.Spelling — the texts that spell a list of tokens

The lexical rules of JSON as relations: a character of a string may be written as it is, by a short
escape, or by the codes of its one or two UTF-16 units; tokens follow each other with any amount of
space between them. Numbers are whole here.

* `scanString_of_spells`, `scanToken_of_spells`: a string and a token are read off the start of a
  text.
* `tokens_of_spells`: all tokens of a text are found, however it spells them.
-/

namespace ClassSurface.Json

open Text

/-! ### Characters -/

/-- The escapes of one letter, with the characters that they stand for. -/
def shortEscapes : List (Char × Char) :=
  [('"', '"'), ('\\', '\\'), ('/', '/'), ('b', '\x08'), ('f', '\x0c'), ('n', '\n'), ('r', '\r'),
    ('t', '\t')]

/-- The ways to write a character inside a string. -/
inductive SpellsChar : Char → List Char → Prop where
  | plain {c : Char} (printable : 0x20 ≤ c.toNat) (unquoted : c ≠ '"') (unescaped : c ≠ '\\') :
      SpellsChar c [c]
  | short {e c : Char} (known : (e, c) ∈ shortEscapes) : SpellsChar c ['\\', e]
  | code {c w x y z : Char} (code : hexValue? [w, x, y, z] = some c.toNat) :
      SpellsChar c ['\\', 'u', w, x, y, z]
  /-- The halves of a surrogate pair. -/
  | pair {c w x y z w' x' y' z' : Char} {high low : Nat}
      (first : hexValue? [w, x, y, z] = some high) (second : hexValue? [w', x', y', z'] = some low)
      (isHigh : 0xD800 ≤ high ∧ high < 0xDC00) (isLow : 0xDC00 ≤ low ∧ low < 0xE000)
      (value : c.toNat = 0x10000 + (high - 0xD800) * 0x400 + (low - 0xDC00)) :
      SpellsChar c ['\\', 'u', w, x, y, z, '\\', 'u', w', x', y', z']

theorem codeUnit_toNat (c : Char) : codeUnit c.toNat = .char c := by
  have hvalid : c.toNat < 0xD800 ∨ 0xDFFF < c.toNat ∧ c.toNat < 0x110000 := c.valid
  have hwhole : (isHighHalf c.toNat || isLowHalf c.toNat) = false := by
    simp [isHighHalf, isLowHalf]
    omega
  rw [codeUnit, hwhole, Char.ofNat_toNat]
  rfl

theorem codeUnit_of_half {n : Nat} (h : 0xD800 ≤ n ∧ n < 0xE000) : codeUnit n = .half n := by
  have hhalf : (isHighHalf n || isLowHalf n) = true := by
    simp [isHighHalf, isLowHalf]
    omega
  rw [codeUnit, hhalf]
  rfl

theorem scanString_plain {c : Char} (hp : 0x20 ≤ c.toNat) (hq : c ≠ '"') (he : c ≠ '\\')
    (s : List Char) :
    scanString (c :: s) = (scanString s).bind fun (us, rest) => some (.char c :: us, rest) := by
  have hraw : (c.toNat < 0x20 || c == '\\') = false := by
    simp [he]
    omega
  rw [scanString]
  · rw [hraw]
    rfl
  · exact hq
  · intro a b c' d s' hc _
    exact he hc
  · intro e s' hc _
    exact he hc

theorem scanString_short {e c : Char} (h : (e, c) ∈ shortEscapes) (s : List Char) :
    scanString ('\\' :: e :: s) =
      (scanString s).bind fun (us, rest) => some (.char c :: us, rest) := by
  simp only [shortEscapes, List.mem_cons, Prod.mk.injEq, List.not_mem_nil, or_false] at h
  rcases h with ⟨rfl, rfl⟩ | ⟨rfl, rfl⟩ | ⟨rfl, rfl⟩ | ⟨rfl, rfl⟩ | ⟨rfl, rfl⟩ | ⟨rfl, rfl⟩ |
    ⟨rfl, rfl⟩ | ⟨rfl, rfl⟩ <;> rfl

theorem scanString_code {w x y z : Char} {n : Nat} (h : hexValue? [w, x, y, z] = some n)
    (s : List Char) :
    scanString ('\\' :: 'u' :: w :: x :: y :: z :: s) =
      (scanString s).bind fun (us, rest) => some (codeUnit n :: us, rest) := by
  rw [scanString, h]
  rfl

/-- A string is read up to its closing quote, whichever way its characters are written. -/
theorem scanString_of_spells {cs : List Char} {parts : List (List Char)}
    (h : List.Forall₂ SpellsChar cs parts) (rest : List Char) :
    ∃ us, scanString (parts.flatten ++ '"' :: rest) = some (us, rest) ∧
      joinHalves us = some cs := by
  induction h with
  | nil => exact ⟨[], rfl, rfl⟩
  | @cons c part cs parts hc _ ih =>
    obtain ⟨us, hscan, hjoin⟩ := ih
    rw [List.flatten_cons, List.append_assoc]
    cases hc with
    | plain hp hq he =>
      refine ⟨.char c :: us, ?_, ?_⟩
      · rw [List.singleton_append, scanString_plain hp hq he, hscan]
        rfl
      · rw [joinHalves, hjoin]
        rfl
    | short hknown =>
      refine ⟨.char c :: us, ?_, ?_⟩
      · rw [List.cons_append, List.cons_append, List.nil_append, scanString_short hknown, hscan]
        rfl
      · rw [joinHalves, hjoin]
        rfl
    | code hcode =>
      refine ⟨.char c :: us, ?_, ?_⟩
      · simp only [List.cons_append, List.nil_append]
        rw [scanString_code hcode, hscan, codeUnit_toNat]
        rfl
      · rw [joinHalves, hjoin]
        rfl
    | @pair _ _ _ _ _ _ _ _ _ high low hfirst hsecond hhigh hlow hvalue =>
      refine ⟨.half high :: .half low :: us, ?_, ?_⟩
      · simp only [List.cons_append, List.nil_append]
        rw [scanString_code hfirst, scanString_code hsecond, hscan,
          codeUnit_of_half ⟨hhigh.1, by omega⟩, codeUnit_of_half ⟨by omega, hlow.2⟩]
        rfl
      · have hpair : (isHighHalf high && isLowHalf low) = true := by
          simp [isHighHalf, isLowHalf, hhigh, hlow]
        rw [joinHalves, if_pos hpair, hjoin, ← hvalue, Char.ofNat_toNat]
        rfl

example : (scanString "\\uD83D\\uDE00\"".toList).bind (fun (us, _) => joinHalves us) =
    some ['😀'] := by
  decide +kernel

/-! ### Numbers -/

/-- One zero, or digits of which the first is not zero. -/
def IsWhole (ds : List Char) : Prop :=
  ds = ['0'] ∨ ds ≠ [] ∧ ds.head? ≠ some '0' ∧ ds.all Char.isDigit

instance (ds : List Char) : Decidable (IsWhole ds) := inferInstanceAs (Decidable (_ ∨ _))

/-- Nothing at the start of the text can be part of a number. -/
def EndsNumber (rest : List Char) : Prop :=
  ∀ c ∈ rest.head?, c.isDigit = false ∧ c ≠ '.' ∧ c ≠ 'e' ∧ c ≠ 'E'

theorem spanDigits_append {ds rest : List Char} (hds : ∀ c ∈ ds, c.isDigit)
    (hrest : EndsNumber rest) : spanDigits (ds ++ rest) = (ds, rest) := by
  have hstop : rest.takeWhile Char.isDigit = [] ∧ rest.dropWhile Char.isDigit = rest := by
    cases rest with
    | nil => exact ⟨rfl, rfl⟩
    | cons c rest =>
      have hc := (hrest c rfl).1
      simp [hc]
  rw [spanDigits, List.takeWhile_append_of_pos hds, List.dropWhile_append_of_pos hds, hstop.1,
    hstop.2, List.append_nil]

theorem scanWhole_of_isWhole {ds rest : List Char} (h : IsWhole ds) (hrest : EndsNumber rest) :
    scanWhole (ds ++ rest) = some (ds, rest) := by
  rcases h with rfl | ⟨hne, hzero, hdigits⟩
  · rfl
  · obtain ⟨d, more, rfl⟩ := List.exists_cons_of_ne_nil hne
    have hspan := spanDigits_append (List.all_eq_true.mp hdigits) hrest
    rw [List.cons_append] at hspan ⊢
    rw [scanWhole]
    · rw [hspan]
      rfl
    · intro s hs
      exact hzero (congrArg some (List.cons.inj hs).1)

theorem scanFraction_of_ends {rest : List Char} (h : EndsNumber rest) :
    scanFraction rest = some ([], rest) := by
  cases rest with
  | nil => rfl
  | cons c rest =>
    rw [scanFraction]
    intro s hs
    exact (h c rfl).2.1 (List.cons.inj hs).1

theorem scanExponent_of_ends {rest : List Char} (h : EndsNumber rest) :
    scanExponent rest = some (none, rest) := by
  cases rest with
  | nil => rfl
  | cons c rest =>
    obtain ⟨-, -, he, hE⟩ := h c rfl
    simp [scanExponent, he, hE]

/-- The text of a whole number. -/
def wholeText (negative : Bool) (ds : List Char) : List Char :=
  (if negative then ['-'] else []) ++ ds

/-- A whole number starts with a digit. -/
theorem IsWhole.exists_digit {ds : List Char} (h : IsWhole ds) :
    ∃ d more, ds = d :: more ∧ d.isDigit = true := by
  rcases h with rfl | ⟨hne, -, hdigits⟩
  · exact ⟨'0', [], rfl, rfl⟩
  · obtain ⟨d, more, rfl⟩ := List.exists_cons_of_ne_nil hne
    exact ⟨d, more, rfl, List.all_eq_true.mp hdigits d List.mem_cons_self⟩

theorem scanNumber_of_isWhole (negative : Bool) {ds rest : List Char} (h : IsWhole ds)
    (hrest : EndsNumber rest) :
    scanNumber (wholeText negative ds ++ rest) = some ({ negative, whole := ds }, rest) := by
  have hscan := scanWhole_of_isWhole h hrest
  have hfraction := scanFraction_of_ends hrest
  have hexponent := scanExponent_of_ends hrest
  cases negative with
  | true => simp [scanNumber, wholeText, hscan, hfraction, hexponent]
  | false =>
    obtain ⟨d, more, rfl, hd⟩ := h.exists_digit
    have hminus : d ≠ '-' := by
      rintro rfl
      exact absurd hd (by decide)
    rw [List.cons_append] at hscan
    simp [scanNumber, wholeText, hscan, hfraction, hexponent, hminus]

/-! ### Tokens -/

/-- The texts of a token. -/
inductive SpellsToken : Token → List Char → Prop where
  | openArray : SpellsToken .openArray ['[']
  | closeArray : SpellsToken .closeArray [']']
  | openObject : SpellsToken .openObject ['{']
  | closeObject : SpellsToken .closeObject ['}']
  | comma : SpellsToken .comma [',']
  | colon : SpellsToken .colon [':']
  | null : SpellsToken .null ['n', 'u', 'l', 'l']
  | isTrue : SpellsToken (.bool true) ['t', 'r', 'u', 'e']
  | isFalse : SpellsToken (.bool false) ['f', 'a', 'l', 's', 'e']
  | number {negative : Bool} {whole : List Char} (digits : IsWhole whole) :
      SpellsToken (.number { negative, whole }) (wholeText negative whole)
  | string {s : String} {parts : List (List Char)}
      (chars : List.Forall₂ SpellsChar s.toList parts) :
      SpellsToken (.string (some s)) ('"' :: (parts.flatten ++ ['"']))

/-- A number is over where the text goes on with something else. -/
def Separate : Token → List Char → Prop
  | .number _, rest => EndsNumber rest
  | _, _ => True

/-- The texts of a list of tokens: space may stand before each of them and at the end. -/
inductive Spells : List Token → List Char → Prop where
  | nil {space : List Char} (blank : ∀ c ∈ space, isSpace c) : Spells [] space
  | cons {token : Token} {more : List Token} {space text rest : List Char}
      (blank : ∀ c ∈ space, isSpace c) (first : SpellsToken token text)
      (apart : Separate token rest) (others : Spells more rest) :
      Spells (token :: more) (space ++ (text ++ rest))

/-- What starts as a number is read as a number. -/
theorem scanToken_of_numeric {c : Char} (h : c.isDigit = true ∨ c = '-') (s : List Char) :
    scanToken (c :: s) = (scanNumber (c :: s)).bind fun (value, rest) =>
      some (.number value, rest) := by
  have hne : ∀ d : Char, d.isDigit = false → d ≠ '-' → c ≠ d := by
    rintro d hd hminus rfl
    rcases h with h | h
    · rw [hd] at h
      cases h
    · exact hminus h
  rw [scanToken]
  · rfl
  all_goals
    intro s' hs'
    exact hne _ (by decide) (by decide) (List.cons.inj hs').1

/-- A token is read off the start of a text. -/
theorem scanToken_of_spells {token : Token} {text rest : List Char} (h : SpellsToken token text)
    (hrest : Separate token rest) : scanToken (text ++ rest) = some (token, rest) := by
  cases h with
  | @number negative whole hdigits =>
    have hscan := scanNumber_of_isWhole negative hdigits hrest
    obtain ⟨d, more, rfl, hd⟩ := hdigits.exists_digit
    cases negative with
    | true =>
      show scanToken ('-' :: (d :: more ++ rest)) = _
      rw [scanToken_of_numeric (.inr rfl)]
      exact congrArg (Option.bind · _) hscan
    | false =>
      show scanToken (d :: (more ++ rest)) = _
      rw [scanToken_of_numeric (.inl hd)]
      exact congrArg (Option.bind · _) hscan
  | @string s parts hchars =>
    obtain ⟨us, hscan, hjoin⟩ := scanString_of_spells hchars rest
    rw [List.cons_append, List.append_assoc, List.singleton_append, scanToken, hscan]
    simp [hjoin]
  | _ => rfl

/-- A token starts with something else than space. -/
theorem SpellsToken.exists_head {token : Token} {text : List Char} (h : SpellsToken token text) :
    ∃ c s, text = c :: s ∧ isSpace c = false := by
  cases h with
  | @number negative whole hdigits =>
    obtain ⟨d, more, rfl, hd⟩ := hdigits.exists_digit
    cases negative with
    | true => exact ⟨'-', _, rfl, rfl⟩
    | false =>
      refine ⟨d, more, rfl, ?_⟩
      by_contra hspace
      simp only [isSpace, Bool.not_eq_false, Bool.or_eq_true, beq_iff_eq] at hspace
      rcases hspace with ((rfl | rfl) | rfl) | rfl <;> exact absurd hd (by decide)
  | _ => exact ⟨_, _, rfl, rfl⟩

theorem tokensWithin_of_blank {space : List Char} (h : ∀ c ∈ space, isSpace c) (s : List Char)
    (steps : Nat) : tokensWithin (space.length + steps) (space ++ s) = tokensWithin steps s := by
  induction space with
  | nil => simp
  | cons c space ih =>
    obtain ⟨hc, hspace⟩ := List.forall_mem_cons.mp h
    rw [List.length_cons, Nat.add_right_comm, List.cons_append, tokensWithin, if_pos hc, ih hspace]

/-- With steps for all its characters, a text is read as the tokens that it spells. -/
theorem tokensWithin_of_spells {ts : List Token} {s : List Char} (h : Spells ts s) {steps : Nat}
    (hsteps : s.length ≤ steps) : tokensWithin steps s = some ts := by
  induction h generalizing steps with
  | @nil space hblank =>
    obtain ⟨k, rfl⟩ := Nat.exists_eq_add_of_le hsteps
    have hskip := tokensWithin_of_blank hblank [] k
    rw [List.append_nil] at hskip
    rw [hskip, tokensWithin]
  | @cons token more space text rest hblank hfirst hapart _ ih =>
    rw [List.length_append, List.length_append] at hsteps
    obtain ⟨k, rfl⟩ := Nat.exists_eq_add_of_le (show space.length ≤ steps by omega)
    rw [tokensWithin_of_blank hblank]
    have hscan := scanToken_of_spells hfirst hapart
    obtain ⟨c, s, rfl, hc⟩ := hfirst.exists_head
    rw [List.length_cons] at hsteps
    obtain ⟨k, rfl⟩ : ∃ l, k = l + 1 := ⟨k - 1, by omega⟩
    rw [List.cons_append] at hscan ⊢
    rw [tokensWithin, hc, hscan]
    have hmore : tokensWithin k rest = some more := ih (by omega)
    simp [hmore]

/-- The tokens of a text are those that it spells. -/
theorem tokens_of_spells {ts : List Token} {s : List Char} (h : Spells ts s) :
    tokens s = some ts :=
  tokensWithin_of_spells h (Nat.le_refl _)

end ClassSurface.Json
