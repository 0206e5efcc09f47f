import ClassSurface.Proofs.Registry.Request

/-! # Proofs.Registry.History — all that can be done with a registry

`Op` lists the operations that change a registry, `play` performs any number of them in a row,
failed ones included, and `Reachable` holds of the registries that this leads to from a new one.
Between operations nothing is under way, and the invariant of `Step` holds (`Reachable.sound`).
Further invariants are proved for requests and attempts to resolve an entry, and then hold after
every history (`Preserved.of_reachable`).
-/

namespace ClassSurface.Registry

/-- What can be asked of a registry. -/
inductive Op where
  | request (name : String)
  | resolveClass (name : String)
  | resolve (id : ClassId)
  | document (names : List String) (scope : Scope)

/-- What a registry gives back. -/
inductive Answer where
  | entry (id : ClassId)
  | done
  | text (document : String)
  /-- There is no entry of the number asked for, and nothing was done. -/
  | noEntry

/-- Performs one operation. The numbers of entries come from the registry; that a number comes from
elsewhere is found out before anything else happens. -/
def Op.perform (ctx : Context) : Op → Registry → Outcome Answer
  | request name, r => (r.request ctx name).andThen fun id s => some (.ok (.entry id), s)
  | resolveClass name, r => (r.resolveClass ctx name).andThen fun id s => some (.ok (.entry id), s)
  | resolve id, r =>
    if h : id < r.entries.size then (r.resolve ctx id h).andThen fun _ s => some (.ok .done, s)
    else some (.ok .noEntry, r)
  | document names scope, r =>
    (Registry.document ctx scope names r).andThen fun text s => some (.ok (.text text), s)

/-- Performs operations one after the other, whether they succeed or fail, and collects what they
give back. -/
def play (ctx : Context) :
    List Op → Registry → Option (List (Except ResolveError Answer) × Registry)
  | [], r => some ([], r)
  | op :: ops, r =>
    match op.perform ctx r with
    | none => none
    | some (answer, s) => (play ctx ops s).map fun (answers, t) => (answer :: answers, t)

/-- `r` is what some operations leave of a new registry. -/
def Reachable (ctx : Context) (shared : Bool) (r : Registry) : Prop :=
  ∃ ops answers, play ctx ops { shared } = some (answers, r)

variable {ctx : Context} {r s : Registry} {shared : Bool}

theorem Op.perform_steps (hs : Sound ctx.docs r) (op : Op) :
    GoesBySteps ctx r (op.perform ctx r) := by
  cases op with
  | request name => exact (request_steps hs name).andThen fun _ _ _ => .done _
  | resolveClass name => exact (resolveClass_steps hs name).andThen fun _ _ _ => .done _
  | resolve id =>
    rw [Op.perform]
    split
    · exact (resolve_steps hs _).andThen fun _ _ _ => .done _
    · exact .done _
  | document names scope => exact (document_steps scope names hs).andThen fun _ _ _ => .done _

theorem play_cons_eq_some {op : Op} {ops : List Op} {answers : List (Except ResolveError Answer)}
    (h : play ctx (op :: ops) r = some (answers, s)) :
    ∃ answer t rest, op.perform ctx r = some (answer, t) ∧ play ctx ops t = some (rest, s) ∧
      answers = answer :: rest := by
  rw [play] at h
  split at h
  · cases h
  · rename_i answer t hop
    obtain ⟨⟨rest, s'⟩, hplay, heq⟩ := Option.map_eq_some_iff.mp h
    cases heq
    exact ⟨answer, t, rest, hop, hplay, rfl⟩

theorem play_steps (ops : List Op) {answers : List (Except ResolveError Answer)}
    (hs : Sound ctx.docs r) (h : play ctx ops r = some (answers, s)) :
    Steps ctx r s ∧ s.stack = r.stack := by
  induction ops generalizing r answers with
  | nil =>
    cases h
    exact ⟨.refl, rfl⟩
  | cons op ops ih =>
    obtain ⟨answer, t, rest, hop, hplay, -⟩ := play_cons_eq_some h
    obtain ⟨hsteps, hstack⟩ := op.perform_steps hs hop
    obtain ⟨hsteps', hstack'⟩ := ih (hsteps.sound hs) hplay
    exact ⟨hsteps.trans hsteps', hstack'.trans hstack⟩

theorem sound_new (docs : DocReader) (shared : Bool) : Sound docs { shared } :=
  sound_of_empty rfl rfl rfl

theorem Reachable.steps (h : Reachable ctx shared r) : Steps ctx { shared } r := by
  obtain ⟨ops, answers, hplay⟩ := h
  exact (play_steps ops (sound_new _ shared) hplay).1

theorem Reachable.sound (h : Reachable ctx shared r) : Sound ctx.docs r :=
  h.steps.sound (sound_new _ shared)

/-- Between operations nothing is under way. -/
theorem Reachable.stack_eq_nil (h : Reachable ctx shared r) : r.stack = [] := by
  obtain ⟨ops, answers, hplay⟩ := h
  exact (play_steps ops (sound_new _ shared) hplay).2

/-! ### Invariants of histories -/

/-- `I` survives requests, attempts to resolve an entry, and writing down, from sound registries
with nothing under way. -/
structure Preserved (ctx : Context) (I : Registry → Prop) : Prop where
  request : ∀ {r s : Registry} {name : String} {res : Except ResolveError ClassId},
    Sound ctx.docs r → r.stack = [] → I r → r.request ctx name = some (res, s) → I s
  resolve : ∀ {r s : Registry} {id : ClassId} {hid : id < r.entries.size}
    {res : Except ResolveError Unit},
    Sound ctx.docs r → r.stack = [] → I r → r.resolve ctx id hid = some (res, s) → I s
  render : ∀ {r : Registry} (id : ClassId), I r → I (r.markRendered id)

namespace Preserved

variable {I : Registry → Prop} (hI : Preserved ctx I)
include hI

theorem resolveClass (hs : Sound ctx.docs r) (hidle : r.stack = []) (hr : I r) {name : String}
    {res : Except ResolveError ClassId} (h : r.resolveClass ctx name = some (res, s)) : I s := by
  rcases Outcome.andThen_eq_some h with ⟨error, hreq, -⟩ | ⟨id, t, hreq, h⟩
  · exact hI.request hs hidle hr hreq
  · obtain ⟨hsteps, hstack⟩ := request_steps hs name hreq
    have ht : I t := hI.request hs hidle hr hreq
    split at h
    · obtain ⟨res', hres, -⟩ := Outcome.andThen_ok_eq_some h
      exact hI.resolve (hsteps.sound hs) (hstack.trans hidle) ht hres
    · cases h
      exact ht

theorem document (scope : Scope) :
    ∀ (names : List String) {r : Registry} {res : Except ResolveError String},
      Sound ctx.docs r → r.stack = [] → I r → Registry.document ctx scope names r = some (res, s) →
      I s
  | [], r, res, _, _, hr, h => by
    cases h
    exact hr
  | name :: names, r, res, hs, hidle, hr, h => by
    rw [Registry.document] at h
    split at h
    · rcases Outcome.andThen_eq_some h with ⟨error, hreq, -⟩ | ⟨id, t, hreq, h⟩
      · exact hI.request hs hidle hr hreq
      · obtain ⟨hsteps, hstack⟩ := request_steps hs name hreq
        obtain ⟨e, he, -, hres⟩ := provides_of_request hs hreq
        obtain ⟨res', hrest, -⟩ := Outcome.andThen_ok_eq_some h
        exact document scope names ((Step.render id e he hres).sound (hsteps.sound hs))
          (hstack.trans hidle) (hI.render id (hI.request hs hidle hr hreq)) hrest
    · exact document scope names hs hidle hr h

theorem perform (hs : Sound ctx.docs r) (hidle : r.stack = []) (hr : I r) {op : Op}
    {res : Except ResolveError Answer} (h : op.perform ctx r = some (res, s)) : I s := by
  cases op with
  | request name =>
    obtain ⟨res', hreq, -⟩ := Outcome.andThen_ok_eq_some h
    exact hI.request hs hidle hr hreq
  | resolveClass name =>
    obtain ⟨res', hreq, -⟩ := Outcome.andThen_ok_eq_some h
    exact hI.resolveClass hs hidle hr hreq
  | resolve id =>
    rw [Op.perform] at h
    split at h
    · obtain ⟨res', hres, -⟩ := Outcome.andThen_ok_eq_some h
      exact hI.resolve hs hidle hr hres
    · cases h
      exact hr
  | document names scope =>
    obtain ⟨res', hdoc, -⟩ := Outcome.andThen_ok_eq_some h
    exact hI.document scope names hs hidle hr hdoc

theorem play (ops : List Op) {answers : List (Except ResolveError Answer)}
    (hs : Sound ctx.docs r) (hidle : r.stack = []) (hr : I r)
    (h : Registry.play ctx ops r = some (answers, s)) : I s := by
  induction ops generalizing r answers with
  | nil =>
    cases h
    exact hr
  | cons op ops ih =>
    obtain ⟨answer, t, rest, hop, hplay, -⟩ := play_cons_eq_some h
    obtain ⟨hsteps, hstack⟩ := op.perform_steps hs hop
    exact ih (hsteps.sound hs) (hstack.trans hidle) (hI.perform hs hidle hr hop) hplay

/-- What holds of a new registry and is preserved holds after every history. -/
theorem of_reachable (hnew : I { shared }) (h : Reachable ctx shared r) : I r := by
  obtain ⟨ops, answers, hplay⟩ := h
  exact hI.play ops (sound_new _ shared) rfl hnew hplay

end Preserved

end ClassSurface.Registry
