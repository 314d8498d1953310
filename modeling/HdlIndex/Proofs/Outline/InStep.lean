import HdlIndex.Outline.Reading
import HdlIndex.Proofs.Outline.Act

/-! Readings in step. What a rule does depends on the tokens, and on the table only as far as bodies
without a name were counted; the table is only ever changed by acts in the innermost open scope.
Main statement: to read a container is one such act, made of the acts of its body. -/

namespace HdlIndex

/-- What holds of two states and is kept by every pair of steps holds behind the repetition. -/
theorem iterate_rel {σ τ α : Type} {R : σ → τ → Prop} {step : σ → Option σ} {step' : τ → Option τ}
    (h : ∀ s s', R s s' → Option.Rel R (step s) (step' s')) (bound : List α) (s : σ) (s' : τ)
    (hs : R s s') : R (iterate step bound s) (iterate step' bound s') := by
  induction bound generalizing s s' with
  | nil => exact hs
  | cons _ bound ih =>
    have hstep := h s s' hs
    rw [iterate, iterate]
    generalize step s = o at hstep ⊢
    generalize step' s' = o' at hstep ⊢
    cases hstep with
    | none => exact hs
    | some hnext => exact ih _ _ hnext

/-- Every stretch of a document has an extent, if only that of nothing. -/
theorem Origins.definition_ne (o : Origins) (start stop : Nat) :
    o.definition start stop ≠ .multi [] := by
  unfold definition
  split
  · simp [Definition.zero]
  · split <;> simp
  · next hnone _ =>
    intro hmulti
    exact hnone (List.map_eq_nil_iff.1 (Definition.multi.inj hmulti))

namespace Reading

/-- Whether two readings have come to the same place. Their tables may differ, but not in the number
of bodies without a name. -/
structure Agrees (r r' : Reading) : Prop where
  cursor : r.cursor = r'.cursor
  packages : r.packages = r'.packages
  skipped : r.skipped = r'.skipped
  anonymous : r.table.anonymous = r'.table.anonymous
  inScope : r.scopes ≠ []
  inScope' : r'.scopes ≠ []

/-- Whether acts in the innermost open scope lead from one table to another. -/
structure Does (acts : List Act) (r s : Reading) : Prop where
  scopes : s.scopes = r.scopes
  table : s.table = Act.performAll r.scope acts r.table
  extents : Act.HaveExtent acts
  kinds : Act.RespectKinds acts

/-- Acts behind acts. -/
theorem Does.trans {acts more : List Act} {r s t : Reading} (h : Does acts r s)
    (h' : Does more s t) : Does (acts ++ more) r t where
  scopes := h'.scopes.trans h.scopes
  table := by rw [Act.performAll_append, h'.table, h.table, scope, scope, h.scopes]
  extents := Act.haveExtent_append h.extents h'.extents
  kinds := Act.respectKinds_append h.kinds h'.kinds

/-- Whether two readings, from where they stood on, have done the same acts and come to the same
place. -/
structure InStep (r₀ r₀' r r' : Reading) : Prop where
  agrees : Agrees r r'
  acts : ∃ acts, Does acts r₀ r ∧ Does acts r₀' r'

/-- A rule that keeps readings in step. -/
def Uniform (rule : Reading → Reading) : Prop :=
  ∀ r r', Agrees r r' → InStep r r' (rule r) (rule r')

/-- A rule that keeps readings in step and has the same result for both. -/
def UniformWith {α : Type} (rule : Reading → α × Reading) : Prop :=
  ∀ r r', Agrees r r' → (rule r).1 = (rule r').1 ∧ InStep r r' (rule r).2 (rule r').2

/-- A rule that applies to both readings or to none. -/
def UniformIf (rule : Reading → Option Reading) : Prop :=
  ∀ r r', Agrees r r' → Option.Rel (InStep r r') (rule r) (rule r')

/-! ### Containers -/

theorem leave_eq (doc : Document) (start : Nat) {r : Reading} {id : Nat} {outer : List Nat}
    (h : r.scopes = id :: outer) (ho : outer ≠ []) :
    r.leave doc start =
      { r with
        table := r.table.setDefinition id (doc.origins.definition start r.cursor.stop)
        scopes := outer } := by
  obtain ⟨o, rest, rfl⟩ := List.exists_cons_of_ne_nil ho
  rw [leave, h]

/-- To read a container is one act, made of the acts of its body. -/
theorem does_within (doc : Document) (symbol : Symbol) (start : Nat) {body : Reading → Reading}
    {r : Reading} {acts : List Act} (hkind : symbol.kind.isContainer = true) (hr : r.scopes ≠ [])
    (h : Does acts (r.enter symbol) (body (r.enter symbol))) :
    Does [.container symbol acts
        (doc.origins.definition start (body (r.enter symbol)).cursor.stop)]
      r (r.within doc symbol start body) := by
  have hleave := leave_eq doc start h.scopes hr
  refine ⟨?_, ?_, ⟨⟨doc.origins.definition_ne _ _, h.extents⟩, trivial⟩,
    ⟨hkind, h.kinds⟩, trivial⟩
  · rw [within, hleave]
  · rw [within, hleave]
    dsimp only
    rw [h.table]
    rfl

end Reading

end HdlIndex
