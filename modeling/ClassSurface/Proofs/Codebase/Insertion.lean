import ClassSurface.Codebase.Decode
import ClassSurface.Proofs.Codebase.Locality
import Mathlib.Data.List.Induction
import Std.Data.HashMap.Lemmas

/-! # Proofs.Codebase.Insertion — what insertions leave in a codebase

However a codebase is filled, a name keeps the place of its first declaration and has the last one.

* `Records`: this, as an invariant that every insertion keeps.
* `Catalogue`: a codebase in two parts, a hash table of declarations and a list of names, which one
  operation updates together. `InStep` says that the parts have not drifted apart, `Mirrors` that
  they hold what a codebase holds.
* `insertions_recorded`: what a codebase tells about names and classes after any insertions.
-/

namespace ClassSurface

variable {ds : List ClassDecl} {d e : ClassDecl}

/-! ### First places and last declarations -/

/-- The first place of `a` in the list is before that of `b`. -/
def FirstBefore (names : List String) (a b : String) : Prop := names.idxOf a < names.idxOf b

theorem firstBefore_append {names : List String} {a b : String} (ha : a ∈ names) (hb : b ∈ names)
    (more : List String) : FirstBefore (names ++ more) a b ↔ FirstBefore names a b := by
  rw [FirstBefore, List.idxOf_append_of_mem ha, List.idxOf_append_of_mem hb, FirstBefore]

theorem firstBefore_concat {names : List String} {a b : String} (ha : a ∈ names)
    (hb : b ∉ names) : FirstBefore (names ++ [b]) a b := by
  have hlt := List.idxOf_lt_length_of_mem ha
  rw [FirstBefore, List.idxOf_append_of_mem ha, List.idxOf_append_of_notMem hb]
  omega

/-- `d` is the last declaration of its name in `ds`. -/
def LastOfName (ds : List ClassDecl) (d : ClassDecl) : Prop :=
  ∃ earlier later, ds = earlier ++ d :: later ∧ ∀ e ∈ later, e.name ≠ d.name

theorem not_lastOfName_nil : ¬ LastOfName [] d := by
  rintro ⟨earlier, later, h, -⟩
  simp at h

/-- One more declaration is the last one of its name, and makes no difference to other names. -/
theorem lastOfName_concat :
    LastOfName (ds ++ [e]) d ↔ d = e ∨ d.name ≠ e.name ∧ LastOfName ds d := by
  constructor
  · rintro ⟨earlier, later, h, hlater⟩
    rcases later.eq_nil_or_concat' with rfl | ⟨between, last, rfl⟩
    · exact .inl (List.append_singleton_inj.mp h).2.symm
    · rw [← List.cons_append, ← List.append_assoc, List.append_singleton_inj] at h
      obtain ⟨rfl, rfl⟩ := h
      exact .inr ⟨(hlater e (by simp)).symm, earlier, between, rfl,
        fun x hx => hlater x (List.mem_append_left _ hx)⟩
  · rintro (rfl | ⟨hne, earlier, later, rfl, hlater⟩)
    · exact ⟨ds, [], rfl, by simp⟩
    · refine ⟨earlier, later ++ [e], by simp, fun x hx => ?_⟩
      rcases List.mem_append.mp hx with hx | hx
      · exact hlater x hx
      · rw [List.mem_singleton.mp hx]
        exact hne.symm

namespace Codebase

variable {c : Codebase} {n : String}

theorem mem_names_insert : n ∈ (c.insert e).names ↔ n ∈ c.names ∨ n = e.name := by
  rw [names_insert]
  by_cases h : e.name ∈ c.names
  · rw [if_pos h, iff_self_or]
    rintro rfl
    exact h
  · simp [if_neg h]

theorem find?_insert_eq_some : (c.insert e).find? n = some d ↔
    n = e.name ∧ d = e ∨ n ≠ e.name ∧ c.find? n = some d := by
  rw [find?_insert]
  by_cases h : n = e.name
  · simp [h, eq_comm]
  · simp [h]

/-- After the insertion of `ds` every inserted name stands where it was first inserted, and has the
declaration that was inserted last. -/
structure Records (c : Codebase) (ds : List ClassDecl) : Prop where
  /-- The names are in the order of their first insertion. -/
  ordered : c.names.Pairwise (FirstBefore (ds.map (·.name)))
  listed : ∀ n, n ∈ c.names ↔ n ∈ ds.map (·.name)
  last : ∀ n d, c.find? n = some d ↔ d.name = n ∧ LastOfName ds d

theorem records_empty : empty.Records [] where
  ordered := List.Pairwise.nil
  listed := fun _ => Iff.rfl
  last := fun n d => by simp [empty, find?, not_lastOfName_nil]

namespace Records

/-- A new name comes behind all that were inserted before, and a known one does not move. -/
theorem ordered_insert (h : c.Records ds) (e : ClassDecl) :
    (c.insert e).names.Pairwise (FirstBefore ((ds ++ [e]).map (·.name))) := by
  have hold : c.names.Pairwise (FirstBefore (ds.map (·.name) ++ [e.name])) := by
    refine h.ordered.imp_of_mem fun ha hb hab => ?_
    exact (firstBefore_append ((h.listed _).mp ha) ((h.listed _).mp hb) _).mpr hab
  rw [names_insert, List.map_append, List.map_singleton]
  by_cases hmem : e.name ∈ c.names
  · rwa [if_pos hmem]
  · rw [if_neg hmem, List.pairwise_append]
    refine ⟨hold, List.pairwise_singleton _ _, fun a ha b hb => ?_⟩
    rw [List.mem_singleton.mp hb]
    exact firstBefore_concat ((h.listed a).mp ha) (mt (h.listed _).mpr hmem)

theorem insert (h : c.Records ds) (e : ClassDecl) : (c.insert e).Records (ds ++ [e]) where
  ordered := h.ordered_insert e
  listed := fun n => by
    rw [mem_names_insert, h.listed, List.map_append, List.mem_append, List.map_singleton,
      List.mem_singleton]
  last := fun n d => by
    rw [find?_insert_eq_some, h.last, lastOfName_concat]
    constructor
    · rintro (⟨rfl, rfl⟩ | ⟨hne, rfl, hlast⟩)
      · exact ⟨rfl, .inl rfl⟩
      · exact ⟨rfl, .inr ⟨hne, hlast⟩⟩
    · rintro ⟨rfl, rfl | ⟨hne, hlast⟩⟩
      · exact .inl ⟨rfl, rfl⟩
      · exact .inr ⟨hne, rfl, hlast⟩

end Records

theorem records_ofList (ds : List ClassDecl) : (ofList ds).Records ds := by
  induction ds using List.reverseRecOn with
  | nil => exact records_empty
  | append_singleton ds d ih =>
    rw [ofList_concat]
    exact ih.insert d

end Codebase

/-! ### A codebase in two parts -/

/-- Declarations under their names, and apart from them the names in the order in which they were
first inserted. -/
structure Catalogue where
  byName : Std.HashMap String ClassDecl := ∅
  order : Array String := #[]

namespace Catalogue

variable {t : Catalogue} {c : Codebase}

/-- Only a name under which there is nothing yet is added to the order. -/
def insert (t : Catalogue) (d : ClassDecl) : Catalogue where
  byName := t.byName.insert d.name d
  order := if t.byName.contains d.name then t.order else t.order.push d.name

def ofList (ds : List ClassDecl) : Catalogue := ds.foldl insert {}

theorem ofList_concat (ds : List ClassDecl) (d : ClassDecl) :
    ofList (ds ++ [d]) = (ofList ds).insert d := by
  simp [ofList]

@[simp] theorem byName_insert (t : Catalogue) (d : ClassDecl) :
    (t.insert d).byName = t.byName.insert d.name d := rfl

theorem order_insert_of_mem (h : d.name ∈ t.byName) : (t.insert d).order = t.order :=
  if_pos (Std.HashMap.mem_iff_contains.mp h)

theorem order_insert_of_not_mem (h : d.name ∉ t.byName) :
    (t.insert d).order = t.order.push d.name :=
  if_neg (mt Std.HashMap.mem_iff_contains.mpr h)

/-- The two parts have not drifted apart: the order has exactly the names under which there is a
declaration, each once, and each declaration is one of the name under which it is found. -/
structure InStep (t : Catalogue) : Prop where
  distinct : t.order.toList.Nodup
  mem_order_iff : ∀ n, n ∈ t.order ↔ n ∈ t.byName
  size_eq : t.byName.size = t.order.size
  keyed : ∀ n (d : ClassDecl), t.byName[n]? = some d → d.name = n

namespace InStep

theorem keyed_insert (h : t.InStep) (d : ClassDecl) (n : String) {e : ClassDecl}
    (he : (t.insert d).byName[n]? = some e) : e.name = n := by
  rw [byName_insert, Std.HashMap.getElem?_insert] at he
  split at he
  · rename_i hn
    obtain rfl := Option.some.inj he
    exact eq_of_beq hn
  · exact h.keyed n e he

theorem insert (h : t.InStep) (d : ClassDecl) : (t.insert d).InStep := by
  by_cases hmem : d.name ∈ t.byName
  · have horder := order_insert_of_mem hmem
    refine ⟨?_, fun n => ?_, ?_, fun n _ => h.keyed_insert d n⟩
    · rw [horder]
      exact h.distinct
    · rw [horder, h.mem_order_iff, byName_insert, Std.HashMap.mem_insert, beq_iff_eq,
        iff_or_self]
      rintro rfl
      exact hmem
    · rw [horder, byName_insert, Std.HashMap.size_insert, if_pos hmem, h.size_eq]
  · have horder := order_insert_of_not_mem hmem
    refine ⟨?_, fun n => ?_, ?_, fun n _ => h.keyed_insert d n⟩
    · have hnew : d.name ∉ t.order.toList := by rwa [Array.mem_toList_iff, h.mem_order_iff]
      rw [horder, Array.toList_push]
      exact h.distinct.append (List.nodup_singleton _) (List.disjoint_singleton.mpr hnew)
    · rw [horder, Array.mem_push, h.mem_order_iff, byName_insert, Std.HashMap.mem_insert,
        beq_iff_eq, or_comm, eq_comm]
    · rw [horder, byName_insert, Std.HashMap.size_insert, if_neg hmem, h.size_eq,
        Array.size_push]

end InStep

theorem inStep_ofList (ds : List ClassDecl) : (ofList ds).InStep := by
  induction ds using List.reverseRecOn with
  | nil => exact ⟨List.nodup_nil, by simp [ofList], rfl, by simp [ofList]⟩
  | append_singleton ds d ih =>
    rw [ofList_concat]
    exact ih.insert d

/-- The two parts hold what a codebase holds. -/
structure Mirrors (t : Catalogue) (c : Codebase) : Prop where
  order_eq : t.order.toList = c.names
  getElem?_eq : ∀ n, t.byName[n]? = c.find? n

namespace Mirrors

theorem mem_iff (h : t.Mirrors c) (n : String) : n ∈ t.byName ↔ n ∈ c.names := by
  rw [Std.HashMap.mem_iff_isSome_getElem?, h.getElem?_eq, ← Codebase.contains_iff_mem_names]
  rfl

theorem insert (h : t.Mirrors c) (d : ClassDecl) : (t.insert d).Mirrors (c.insert d) := by
  constructor
  · rw [Codebase.names_insert]
    by_cases hmem : d.name ∈ c.names
    · rw [if_pos hmem, order_insert_of_mem ((h.mem_iff _).mpr hmem), h.order_eq]
    · rw [if_neg hmem, order_insert_of_not_mem (mt (h.mem_iff _).mp hmem), Array.toList_push,
        h.order_eq]
  · intro n
    rw [byName_insert, Std.HashMap.getElem?_insert, Codebase.find?_insert, h.getElem?_eq]
    by_cases hn : n = d.name
    · simp [hn]
    · simp [hn, Ne.symm hn]

end Mirrors

theorem mirrors_ofList (ds : List ClassDecl) : (ofList ds).Mirrors (.ofList ds) := by
  induction ds using List.reverseRecOn with
  | nil => exact ⟨rfl, by simp [ofList, Codebase.ofList, Codebase.empty, Codebase.find?]⟩
  | append_singleton ds d ih =>
    rw [ofList_concat, Codebase.ofList_concat]
    exact ih.insert d

end Catalogue

/-! ### What a codebase tells -/

namespace Codebase

variable {c : Codebase}

/-- The declarations `ds`, one after the other, have made `c`: in a new codebase or in one that was
read from a JSON text. Those that a text lists are inserted in the order in which it lists them. -/
inductive FilledWith : Codebase → List ClassDecl → Prop where
  | empty : FilledWith .empty []
  | json {text : String} {ds : List ClassDecl} {c : Codebase}
      (listed : decodeText decodeDeclarations text = .ok ds) (read : ofJson text = .ok c) :
      FilledWith c ds
  | insert {c : Codebase} {ds : List ClassDecl} (filled : FilledWith c ds) (d : ClassDecl) :
      FilledWith (c.insert d) (ds ++ [d])

theorem FilledWith.eq_ofList (h : FilledWith c ds) : c = ofList ds := by
  induction h with
  | empty => rfl
  | json listed read =>
    rw [ofJson, listed] at read
    exact (Except.ok.inj read).symm
  | insert _ d ih => rw [ofList_concat, ← ih]

/-- The class called `n` is shown as `d` declares it, with all methods visible on it. -/
def ShownAs (c : Codebase) (n : String) (d : ClassDecl) : Prop :=
  c.view n = .ok
    { name := n, kind := d.kind, parent := d.parent, interfaces := d.interfaces
      docComment := d.docComment, methods := c.visibleMethods n }

/-- What a codebase tells about names and classes after the insertion of `ds`. -/
structure Tells (c : Codebase) (ds : List ClassDecl) : Prop extends Records c ds where
  /-- No name is listed twice. -/
  distinct : c.names.Nodup
  contains_iff : ∀ n, c.contains n ↔ n ∈ c.names
  size_eq : c.size = c.names.length
  /-- A declaration is found under its own name, and is the last one of that name. -/
  stored : ∀ d ∈ c.declarations, c.find? d.name = some d ∧ LastOfName ds d
  /-- A class is unknown exactly if it was never inserted. -/
  unknown_iff : ∀ n, c.view n = .error (.unknownClass n) ↔ n ∉ ds.map (·.name)
  /-- A class is shown as it was declared last. -/
  shown : ∀ n ∈ ds.map (·.name), ∃ d, d.name = n ∧ LastOfName ds d ∧ c.ShownAs n d

theorem find?_of_mem_declarations (hnd : c.names.Nodup) (hd : d ∈ c.declarations) :
    c.find? d.name = some d :=
  find?_of_mem ClassDecl.name (List.pairwise_map.mp hnd) hd

theorem Records.shown (h : c.Records ds) {n : String} (hn : n ∈ ds.map (·.name)) :
    ∃ d, d.name = n ∧ LastOfName ds d ∧ c.ShownAs n d := by
  obtain ⟨d, hd⟩ := mem_names_iff_find?.mp ((h.listed n).mpr hn)
  obtain ⟨rfl, hlast⟩ := (h.last n d).mp hd
  exact ⟨d, rfl, hlast, by rw [ShownAs, view, hd]⟩

theorem Records.tells (h : c.Records ds) (hnd : c.names.Nodup) : c.Tells ds where
  toRecords := h
  distinct := hnd
  contains_iff := fun _ => contains_iff_mem_names
  size_eq := by rw [size, names, List.length_map]
  stored := fun d hd => by
    have hfound := find?_of_mem_declarations hnd hd
    exact ⟨hfound, ((h.last _ d).mp hfound).2⟩
  unknown_iff := fun n => by
    constructor
    · intro herror hn
      obtain ⟨d, -, -, hshown⟩ := h.shown hn
      rw [hshown] at herror
      cases herror
    · intro hn
      rw [view, find?_eq_none_of_not_mem (mt (h.listed n).mp hn)]
  shown := fun _ => h.shown

/-- **Insertion**: let declarations be inserted one after the other, into a new codebase or one that
was read from a JSON text, with any names repeated. Each name is listed once, in the order of the
first insertions; the codebase contains these names and no others, and counts them. It shows a class
as it was declared last, and as unknown if it never was. Kept in two parts it holds the same, and
the parts stay in step. -/
theorem insertions_recorded (c : Codebase) (ds : List ClassDecl) (h : FilledWith c ds) :
    c.Tells ds ∧ (Catalogue.ofList ds).InStep ∧ (Catalogue.ofList ds).Mirrors c := by
  rw [h.eq_ofList]
  exact ⟨(records_ofList ds).tells (nodup_names_ofList ds), Catalogue.inStep_ofList ds,
    Catalogue.mirrors_ofList ds⟩

/-- A text that declares a box twice, and a tray in between. -/
def inventory : String :=
  "\x7b\"classes\": [\x7b\"name\": \"Box\", \"parent\": \"Tray\"\x7d, [\"Tray\"], [\"Box\"]]\x7d"

/-- The declarations of the inventory, then a lid and another tray. -/
def inventoried : List ClassDecl :=
  [{ name := "Box", parent := some "Tray" }, { name := "Tray" }, { name := "Box" },
    { name := "Lid" }, { name := "Tray", interfaces := ["Flat"] }]

/-- The tray has its second declaration, and still stands before the lid. -/
theorem insertions_recorded_inventory : ∃ c, FilledWith c inventoried ∧
    c.names = ["Box", "Tray", "Lid"] ∧
    (c.find? "Box").map (·.parent) = some none ∧
    (c.find? "Tray").map (·.interfaces) = some ["Flat"] ∧
    c.Tells inventoried ∧
    (Catalogue.ofList inventoried).order.toList = ["Box", "Tray", "Lid"] ∧
    (Catalogue.ofList inventoried).InStep ∧ (Catalogue.ofList inventoried).Mirrors c := by
  have hlisted : decodeText decodeDeclarations inventory = .ok (inventoried.take 3) := by cbv
  have hread : ofJson inventory = .ok (ofList (inventoried.take 3)) := by
    rw [ofJson, hlisted]
    rfl
  have hfilled := ((FilledWith.json hlisted hread).insert { name := "Lid" }).insert
    { name := "Tray", interfaces := ["Flat"] }
  obtain ⟨htells, hstep, hmirrors⟩ := insertions_recorded _ inventoried hfilled
  have hnames : (ofList inventoried).names = ["Box", "Tray", "Lid"] := by decide +kernel
  exact ⟨ofList inventoried, hfilled, hnames, by decide +kernel, by decide +kernel, htells,
    hmirrors.order_eq.trans hnames, hstep, hmirrors⟩

end Codebase

end ClassSurface
