import ClassSurface.Proofs.Json.Spelling

/-! # Proofs.Json.Reading — the texts of a tree

A tree has one list of tokens (`tokenList`), and every text that spells these tokens is a text of
the tree (`Written`).

* `value_tokenList`: the reader finds a tree in its tokens, whatever follows them.
* `read?_of_written`: it finds a tree in each of its texts.
* `written_render`: where strings have texts and numbers are whole, there is such a text.
-/

namespace ClassSurface.Json

mutual

/-- The tokens of a tree. -/
def tokenList : Json → List Token
  | .null => [.null]
  | .bool b => [.bool b]
  | .number n => [.number n]
  | .string s => [.string s]
  | .array items => .openArray :: (itemTokens items ++ [.closeArray])
  | .object members => .openObject :: (memberTokens members ++ [.closeObject])

/-- The tokens of items, with commas between them. -/
def itemTokens : List Json → List Token
  | [] => []
  | [item] => tokenList item
  | item :: next :: more => tokenList item ++ .comma :: itemTokens (next :: more)

/-- The tokens of members, with commas between them. -/
def memberTokens : List (Option String × Json) → List Token
  | [] => []
  | [(name, item)] => .string name :: .colon :: tokenList item
  | (name, item) :: next :: more =>
    .string name :: .colon :: (tokenList item ++ .comma :: memberTokens (next :: more))

end

/-! ### Trees out of tokens -/

/-- No tree starts with a closing bracket. -/
theorem tokenList_append_ne (j : Json) (more rest : List Token) :
    tokenList j ++ more ≠ .closeArray :: rest := by
  cases j <;> simp [tokenList]

theorem itemTokens_append_ne (item : Json) (items : List Json) (more rest : List Token) :
    itemTokens (item :: items) ++ more ≠ .closeArray :: rest := by
  cases items with
  | nil => exact tokenList_append_ne item more rest
  | cons next items =>
    rw [itemTokens, List.append_assoc]
    exact tokenList_append_ne item _ rest

theorem memberTokens_append_ne (member : Option String × Json)
    (members : List (Option String × Json)) (more rest : List Token) :
    memberTokens (member :: members) ++ more ≠ .closeObject :: rest := by
  obtain ⟨name, item⟩ := member
  cases members <;> simp [memberTokens]

theorem value_openArray {steps : Nat} {ts : List Token} (h : ∀ rest, ts ≠ .closeArray :: rest) :
    value (steps + 1) (.openArray :: ts) =
      (items steps ts).bind fun (items, ts) => some (.array items, ts) := by
  rw [value]
  · rfl
  · exact h

theorem value_openObject {steps : Nat} {ts : List Token} (h : ∀ rest, ts ≠ .closeObject :: rest) :
    value (steps + 1) (.openObject :: ts) =
      (members steps ts).bind fun (members, ts) => some (.object members, ts) := by
  rw [value]
  · rfl
  · exact h

theorem length_tokenList_pos (j : Json) : 0 < (tokenList j).length := by
  cases j <;> simp [tokenList]

mutual

/-- The tree that tokens belong to is read off the start of a list of tokens. -/
theorem value_tokenList : ∀ (j : Json) (more : List Token) (steps : Nat),
    2 * (tokenList j).length ≤ steps + 1 → value (steps + 1) (tokenList j ++ more) = some (j, more)
  | .null, _, _, _ => rfl
  | .bool _, _, _, _ => rfl
  | .number _, _, _, _ => rfl
  | .string _, _, _, _ => rfl
  | .array [], _, _, _ => rfl
  | .array (item :: items), more, steps, h => by
    simp only [tokenList, List.length_cons, List.length_append, List.length_nil] at h
    rw [tokenList, List.cons_append, List.append_assoc, List.singleton_append,
      value_openArray (itemTokens_append_ne item items _),
      items_itemTokens (item :: items) (List.cons_ne_nil _ _) more steps (by omega)]
    rfl
  | .object [], _, _, _ => rfl
  | .object (member :: members), more, steps, h => by
    simp only [tokenList, List.length_cons, List.length_append, List.length_nil] at h
    rw [tokenList, List.cons_append, List.append_assoc, List.singleton_append,
      value_openObject (memberTokens_append_ne member members _),
      members_memberTokens (member :: members) (List.cons_ne_nil _ _) more steps (by omega)]
    rfl

/-- Items are read up to the closing bracket. -/
theorem items_itemTokens : ∀ js : List Json, js ≠ [] → ∀ (rest : List Token) (steps : Nat),
    2 * (itemTokens js).length < steps →
      items steps (itemTokens js ++ .closeArray :: rest) = some (js, rest)
  | [], hne, _, _, _ => absurd rfl hne
  | [item], _, rest, steps, h => by
    have hpos := length_tokenList_pos item
    rw [itemTokens] at h ⊢
    obtain ⟨k, rfl⟩ : ∃ k, steps = k + 2 := ⟨steps - 2, by omega⟩
    rw [items, value_tokenList item _ k (by omega)]
    rfl
  | item :: next :: more, _, rest, steps, h => by
    have hpos := length_tokenList_pos item
    rw [itemTokens, List.length_append, List.length_cons] at h
    obtain ⟨k, rfl⟩ : ∃ k, steps = k + 2 := ⟨steps - 2, by omega⟩
    have hmore := items_itemTokens (next :: more) (List.cons_ne_nil _ _) rest (k + 1) (by omega)
    rw [itemTokens, items, List.append_assoc, value_tokenList item _ k (by omega)]
    simp [hmore]

/-- Members are read up to the closing brace. -/
theorem members_memberTokens : ∀ ms : List (Option String × Json), ms ≠ [] →
    ∀ (rest : List Token) (steps : Nat), 2 * (memberTokens ms).length < steps →
      members steps (memberTokens ms ++ .closeObject :: rest) = some (ms, rest)
  | [], hne, _, _, _ => absurd rfl hne
  | [(name, item)], _, rest, steps, h => by
    rw [memberTokens, List.length_cons, List.length_cons] at h
    obtain ⟨k, rfl⟩ : ∃ k, steps = k + 2 := ⟨steps - 2, by omega⟩
    rw [memberTokens, List.cons_append, List.cons_append, members,
      value_tokenList item _ k (by omega)]
    rfl
  | (name, item) :: next :: more, _, rest, steps, h => by
    rw [memberTokens, List.length_cons, List.length_cons, List.length_append,
      List.length_cons] at h
    obtain ⟨k, rfl⟩ : ∃ k, steps = k + 2 := ⟨steps - 2, by omega⟩
    have hmore := members_memberTokens (next :: more) (List.cons_ne_nil _ _) rest (k + 1) (by omega)
    rw [memberTokens, List.cons_append, List.cons_append, members, List.append_assoc,
      value_tokenList item _ k (by omega)]
    simp [hmore]

end

theorem ofTokens?_tokenList (j : Json) : ofTokens? (tokenList j) = some j := by
  have hread := value_tokenList j [] (2 * (tokenList j).length) (by omega)
  rw [List.append_nil] at hread
  rw [ofTokens?, hread]

/-- The text is one of the tree: it spells the tokens of the tree. -/
def Written (j : Json) (text : String) : Prop := Spells (tokenList j) text.toList

/-- However a tree is written, the reader finds it. -/
theorem read?_of_written {j : Json} {text : String} (h : j.Written text) : read? text = some j := by
  rw [read?, tokens_of_spells h, Option.bind_some, ofTokens?_tokenList]

/-! ### Texts of trees -/

/-- Quotes, backslashes and control characters are escaped, all others stand for themselves. -/
def spellChar (c : Char) : List Char :=
  if c = '"' then ['\\', '"']
  else if c = '\\' then ['\\', '\\']
  else if c.toNat < 0x20 then
    ['\\', 'u', '0', '0', (c.toNat / 16).digitChar, (c.toNat % 16).digitChar]
  else [c]

theorem hexValue?_of_control : ∀ n < 0x20,
    Text.hexValue? ['0', '0', (n / 16).digitChar, (n % 16).digitChar] = some n := by
  decide

theorem spellsChar_spellChar (c : Char) : SpellsChar c (spellChar c) := by
  unfold spellChar
  split
  · rename_i hquote
    subst hquote
    exact .short (by decide)
  · rename_i hquote
    split
    · rename_i hslash
      subst hslash
      exact .short (by decide)
    · rename_i hslash
      split
      · rename_i hcontrol
        exact .code (hexValue?_of_control _ hcontrol)
      · rename_i hprintable
        exact .plain (Nat.le_of_not_lt hprintable) hquote hslash

/-- The token can be written: a string has a text, and a number is whole. -/
def Token.Writable : Token → Prop
  | .string s => s.isSome
  | .number n => IsWhole n.whole ∧ n.fraction = [] ∧ n.exponent = none
  | _ => True

instance (token : Token) : Decidable token.Writable :=
  match token with
  | .string s => inferInstanceAs (Decidable (s.isSome = true))
  | .number n =>
    inferInstanceAs (Decidable (IsWhole n.whole ∧ n.fraction = [] ∧ n.exponent = none))
  | .openArray | .closeArray | .openObject | .closeObject | .comma | .colon | .null | .bool _ =>
    inferInstanceAs (Decidable True)

/-- The text of a token. -/
def Token.text : Token → List Char
  | .openArray => ['[']
  | .closeArray => [']']
  | .openObject => ['{']
  | .closeObject => ['}']
  | .comma => [',']
  | .colon => [':']
  | .null => ['n', 'u', 'l', 'l']
  | .bool true => ['t', 'r', 'u', 'e']
  | .bool false => ['f', 'a', 'l', 's', 'e']
  | .number n => wholeText n.negative n.whole
  | .string s => '"' :: ((s.getD "").toList.flatMap spellChar ++ ['"'])

theorem Token.Writable.spells {token : Token} (h : token.Writable) :
    SpellsToken token token.text := by
  cases token with
  | bool b => cases b <;> constructor
  | number n =>
    obtain ⟨negative, whole, fraction, exponent⟩ := n
    obtain ⟨hwhole, rfl, rfl⟩ := h
    exact .number hwhole
  | string s =>
    obtain ⟨s, rfl⟩ := Option.isSome_iff_exists.mp h
    have hchars : List.Forall₂ SpellsChar s.toList (s.toList.map spellChar) := by
      rw [List.forall₂_map_right_iff, List.forall₂_same]
      exact fun c _ => spellsChar_spellChar c
    exact .string hchars
  | _ => constructor

/-- The text of a tree, with a space after each token. -/
def render (j : Json) : String :=
  String.ofList ((tokenList j).flatMap fun token => token.text ++ [' '])

theorem Spells.space_cons {ts : List Token} {s : List Char} (h : Spells ts s) :
    Spells ts (' ' :: s) := by
  cases h with
  | nil hblank => exact .nil (List.forall_mem_cons.mpr ⟨rfl, hblank⟩)
  | @cons token more space text rest hblank hfirst hapart hothers =>
    exact .cons (List.forall_mem_cons.mpr ⟨rfl, hblank⟩ : ∀ c ∈ ' ' :: space, isSpace c) hfirst
      hapart hothers

/-- The tree can be written: its strings have texts, and its numbers are whole. -/
def Writable (j : Json) : Prop := ∀ token ∈ tokenList j, token.Writable

instance (j : Json) : Decidable j.Writable :=
  inferInstanceAs (Decidable (∀ token ∈ tokenList j, token.Writable))

theorem written_render {j : Json} (h : j.Writable) : j.Written j.render := by
  rw [Written, render, String.toList_ofList]
  unfold Writable at h
  generalize tokenList j = tokens at h
  induction tokens with
  | nil => exact .nil (by simp)
  | cons token ts ih =>
    obtain ⟨htoken, hts⟩ := List.forall_mem_cons.mp h
    have hnone : ∀ c ∈ ([] : List Char), isSpace c := by simp
    have hrest : Separate token (' ' :: ts.flatMap fun token => token.text ++ [' ']) := by
      cases token with
      | number n =>
        intro c hc
        obtain rfl : ' ' = c := by simpa using hc
        decide
      | _ => trivial
    have hspells := Spells.cons hnone htoken.spells hrest (ih hts).space_cons
    simpa using hspells

/-- A token of items is a comma between them or belongs to one of them. -/
theorem mem_itemTokens {token : Token} : ∀ {items : List Json}, token ∈ itemTokens items →
    token = .comma ∨ ∃ item ∈ items, token ∈ tokenList item
  | [], h => absurd h List.not_mem_nil
  | [item], h => .inr ⟨item, List.mem_cons_self, h⟩
  | item :: next :: more, h => by
    rw [itemTokens, List.mem_append, List.mem_cons] at h
    rcases h with h | rfl | h
    · exact .inr ⟨item, List.mem_cons_self, h⟩
    · exact .inl rfl
    · rcases mem_itemTokens h with h | ⟨other, hother, h⟩
      · exact .inl h
      · exact .inr ⟨other, List.mem_cons_of_mem _ hother, h⟩

theorem mem_memberTokens {token : Token} : ∀ {members : List (Option String × Json)},
    token ∈ memberTokens members → token = .comma ∨ token = .colon ∨
      ∃ member ∈ members, token = .string member.1 ∨ token ∈ tokenList member.2
  | [], h => absurd h List.not_mem_nil
  | [(name, item)], h => by
    rw [memberTokens, List.mem_cons, List.mem_cons] at h
    rcases h with rfl | rfl | h
    · exact .inr (.inr ⟨_, List.mem_cons_self, .inl rfl⟩)
    · exact .inr (.inl rfl)
    · exact .inr (.inr ⟨_, List.mem_cons_self, .inr h⟩)
  | (name, item) :: next :: more, h => by
    rw [memberTokens, List.mem_cons, List.mem_cons, List.mem_append, List.mem_cons] at h
    rcases h with rfl | rfl | h | rfl | h
    · exact .inr (.inr ⟨_, List.mem_cons_self, .inl rfl⟩)
    · exact .inr (.inl rfl)
    · exact .inr (.inr ⟨_, List.mem_cons_self, .inr h⟩)
    · exact .inl rfl
    · rcases mem_memberTokens h with h | h | ⟨other, hother, h⟩
      · exact .inl h
      · exact .inr (.inl h)
      · exact .inr (.inr ⟨other, List.mem_cons_of_mem _ hother, h⟩)

theorem writable_array {items : List Json} (h : ∀ item ∈ items, item.Writable) :
    (Json.array items).Writable := by
  intro token htoken
  rw [tokenList, List.mem_cons, List.mem_append, List.mem_singleton] at htoken
  rcases htoken with rfl | htoken | rfl
  · trivial
  · rcases mem_itemTokens htoken with rfl | ⟨item, hitem, htoken⟩
    · trivial
    · exact h item hitem token htoken
  · trivial

theorem writable_object {members : List (Option String × Json)}
    (h : ∀ member ∈ members, member.1.isSome ∧ member.2.Writable) :
    (Json.object members).Writable := by
  intro token htoken
  rw [tokenList, List.mem_cons, List.mem_append, List.mem_singleton] at htoken
  rcases htoken with rfl | htoken | rfl
  · trivial
  · rcases mem_memberTokens htoken with rfl | rfl | ⟨member, hmember, rfl | htoken⟩
    · trivial
    · trivial
    · exact (h member hmember).1
    · exact (h member hmember).2 token htoken
  · trivial

end ClassSurface.Json
