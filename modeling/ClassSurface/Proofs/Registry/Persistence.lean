import ClassSurface.Proofs.Registry.WellFormed

/-! # Proofs.Registry.Persistence — what operations leave as it was

An operation may add entries and give open ones their surface. Whether it succeeds or fails, and
whatever the source answers from one query to the next, all else stays: resolved entries, the views
and numbers of all entries, the number that a name leads to, and what was written down (`Persists`).
-/

namespace ClassSurface.Registry

variable {docs : DocReader} {r s : Registry} {id : ClassId} {e : Entry} {name : String}

/-- What holds of the registries before and after an operation. -/
structure Persists (r s : Registry) : Prop where
  /-- A resolved entry is the same afterwards, with view, references, documented methods and
  methods, and it is still resolved. -/
  resolved : ∀ (id : ClassId) (e : Entry), r.entries[id]? = some e → r.stateOf id e = .resolved →
    s.entries[id]? = some e ∧ s.stateOf id e = .resolved
  /-- Every entry keeps its number, the name that it was requested under and its view. -/
  kept : ∀ (id : ClassId) (e : Entry), r.entries[id]? = some e → ∃ e', s.entries[id]? = some e' ∧
    e'.id = e.id ∧ e'.requested = e.requested ∧ e'.view = e.view
  /-- A pending entry is resolved afterwards, or still pending and empty. -/
  pending : ∀ (id : ClassId) (e : Entry), r.entries[id]? = some e → r.stateOf id e = .pending →
    ∃ e', s.entries[id]? = some e' ∧ (s.stateOf id e' = .resolved ∨ s.stateOf id e' = .pending ∧
      e'.parent = none ∧ e'.interfaces = [] ∧ e'.dynamicMethods = ∅ ∧ e'.methods = ∅)
  /-- A name leads to the entry that it led to before. -/
  index : ∀ (name : String) (id : ClassId), r.idOf? name = some id → s.idOf? name = some id
  size_le : r.size ≤ s.size
  rendered : r.rendered.toList <+: s.rendered.toList

/-! ### Registries that grow -/

theorem Grows.size_le (h : Grows r s) : r.size ≤ s.size := by
  by_contra hlt
  have hlt : s.size < r.size := by omega
  obtain ⟨e', he', -⟩ := h.entries (Array.getElem?_eq_getElem hlt)
  exact Nat.lt_irrefl _ (lt_size he')

/-- The entries of a grown registry that have old numbers were there before. -/
theorem Grows.exists_entry_of_lt (h : Grows r s) (hid : id < r.size) (he : s.entries[id]? = some e) :
    ∃ e₀, r.entries[id]? = some e₀ ∧ e.requested = e₀.requested ∧ e.view = e₀.view := by
  have he₀ : r.entries[id]? = some r.entries[id] := Array.getElem?_eq_getElem hid
  obtain ⟨e', he', -, hreq, hview, -⟩ := h.entries he₀
  obtain rfl : e = e' := Option.some.inj (he.symm.trans he')
  exact ⟨_, he₀, hreq, hview⟩

/-- The first entry of a name stays the first, since new entries go behind all others. -/
theorem Grows.idOf?_eq_some (h : Grows r s) (hid : r.idOf? name = some id) :
    s.idOf? name = some id := by
  obtain ⟨⟨e, he, hname⟩, hfirst⟩ := idOf?_eq_some_iff.mp hid
  obtain ⟨e', he', -, hreq, -⟩ := h.entries he
  refine idOf?_eq_some_iff.mpr ⟨⟨e', he', hreq.trans hname⟩, fun j hj o ho => ?_⟩
  obtain ⟨o₀, ho₀, hreq₀, -⟩ := h.exists_entry_of_lt (Nat.lt_trans hj (lt_size he)) ho
  rw [hreq₀]
  exact hfirst j hj o₀ ho₀

/-- Between idle registries growth is persistence. -/
theorem Grows.persists (h : Grows r s) (hs : s.WellFormed) : r.Persists s where
  resolved := by
    intro id e he hres
    have hres : e.isResolved = true := stateOf_eq_resolved_iff.mp hres
    exact ⟨h.getElem?_of_resolved he hres, stateOf_eq_resolved_iff.mpr hres⟩
  kept := by
    intro id e he
    obtain ⟨e', he', hkept, hreq, hview, -⟩ := h.entries he
    exact ⟨e', he', hkept, hreq, hview⟩
  pending := by
    intro id e he _
    obtain ⟨e', he', -⟩ := h.entries he
    refine ⟨e', he', ?_⟩
    cases hstate : s.stateOf id e' with
    | resolved => exact .inl rfl
    | inProgress => exact absurd hstate (hs.not_inProgress id e' he')
    | pending => exact .inr ⟨rfl, hs.pending id e' he' hstate⟩
  index := fun name id hid => h.idOf?_eq_some hid
  size_le := h.size_le
  rendered := h.rendered

/-! ### Operations -/

/-- **Persistence**: from every registry that any operations lead to, whatever the source answers
and whether entries are shared or not, an operation keeps all that the registry holds, also when it
fails. -/
theorem perform_persists (ctx : Context) (shared : Bool) (r : Registry)
    (hreach : Reachable ctx shared r) (op : Op) (res : Except ResolveError Answer) (s : Registry)
    (h : op.perform ctx r = some (res, s)) : r.Persists s := by
  obtain ⟨hsteps, hstack⟩ := op.perform_steps hreach.sound h
  have hs : s.WellFormed :=
    (hsteps.sound hreach.sound).wellFormed (hstack.trans hreach.stack_eq_nil)
  exact (hsteps.grows hreach.sound).persists hs

/-- An entry that a failed request has left pending is resolved by its number, once the source knows
its ancestors; the name leads to it as before. -/
theorem perform_persists_latecomer : ∃ r res s, Reachable ⟨latecomer, .rejecting⟩ true r ∧
    (Op.resolve 0).perform ⟨latecomer, .rejecting⟩ r = some (res, s) ∧ r.size = 1 ∧ s.size = 2 ∧
    r.idOf? "Shop" = some 0 ∧ (r.entries[0]?.map (r.stateOf 0)) = some .pending ∧
    (s.entries[0]?.map (s.stateOf 0)) = some .resolved ∧ r.Persists s := by
  have hrun : (play ⟨latecomer, .rejecting⟩ [.request "Shop"] { shared := true }).bind (fun p =>
      ((Op.resolve 0).perform ⟨latecomer, .rejecting⟩ p.2).map fun q => (p.2.size, q.2.size,
        p.2.idOf? "Shop", p.2.entries[0]?.map (p.2.stateOf 0), q.2.entries[0]?.map (q.2.stateOf 0)))
      = some (1, 2, some 0, some .pending, some .resolved) := by
    decide +kernel
  obtain ⟨⟨answers, r⟩, hr, hrun⟩ := Option.bind_eq_some_iff.mp hrun
  obtain ⟨⟨res, s⟩, hop, heq⟩ := Option.map_eq_some_iff.mp hrun
  simp only [Prod.mk.injEq] at heq
  obtain ⟨hr₁, hs₂, hidx, hpend, hres⟩ := heq
  have hreach : Reachable ⟨latecomer, .rejecting⟩ true r := ⟨_, answers, hr⟩
  exact ⟨r, res, s, hreach, hop, hr₁, hs₂, hidx, hpend, hres,
    perform_persists _ _ r hreach _ res s hop⟩

end ClassSurface.Registry
