import ClassSurface.Json.Token

/-! # Json.Reader — from tokens to trees

`read? s` is the tree of the JSON text `s`: one value and nothing after it.
-/

namespace ClassSurface.Json

mutual

/-- The value at the start of a token list. Each call takes a token, so the length of the list is
steps enough. -/
def value : Nat → List Token → Option (Json × List Token)
  | 0, _ => none
  | _ + 1, .null :: ts => some (.null, ts)
  | _ + 1, .bool b :: ts => some (.bool b, ts)
  | _ + 1, .number n :: ts => some (.number n, ts)
  | _ + 1, .string s :: ts => some (.string s, ts)
  | _ + 1, .openArray :: .closeArray :: ts => some (.array [], ts)
  | steps + 1, .openArray :: ts => do
    let (items, ts) ← items steps ts
    some (.array items, ts)
  | _ + 1, .openObject :: .closeObject :: ts => some (.object [], ts)
  | steps + 1, .openObject :: ts => do
    let (members, ts) ← members steps ts
    some (.object members, ts)
  | _ + 1, _ => none

/-- One or more values divided by commas, up to the closing bracket. -/
def items : Nat → List Token → Option (List Json × List Token)
  | 0, _ => none
  | steps + 1, ts => do
    let (item, ts) ← value steps ts
    match ts with
    | .comma :: ts => do
      let (more, ts) ← items steps ts
      some (item :: more, ts)
    | .closeArray :: ts => some ([item], ts)
    | _ => none

/-- One or more named values divided by commas, up to the closing brace. -/
def members : Nat → List Token → Option (List (Option String × Json) × List Token)
  | 0, _ => none
  | steps + 1, .string name :: .colon :: ts => do
    let (item, ts) ← value steps ts
    match ts with
    | .comma :: ts => do
      let (more, ts) ← members steps ts
      some ((name, item) :: more, ts)
    | .closeObject :: ts => some ([(name, item)], ts)
    | _ => none
  | _ + 1, _ => none

end

/-- The value that a token list holds, if it holds one and no more. A step is spent on each token,
and one on each list of items or members. -/
def ofTokens? (ts : List Token) : Option Json :=
  match value (2 * ts.length + 1) ts with
  | some (json, []) => some json
  | _ => none

def read? (s : String) : Option Json := (tokens s.toList).bind ofTokens?

end ClassSurface.Json
