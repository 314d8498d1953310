import HdlIndex.Grammar.Scan

/-! Snapshots of the stacks. A chain of branches is what a grammar makes of conditional text: a
snapshot is put on the pile in front of the first branch, each further branch goes back to it, and
behind the last one it is dropped. Main statement: a chain does to the stacks what its last branch
alone does, the pile is left as it was, and there is a current context all along. -/

namespace HdlIndex.Grammar

/-! ### Effects -/

/-- A part of what a match does to the state of a scan. -/
inductive Effect where
  | snapshot (action : SnapshotAction)
  | stack (action : StackAction Nat)

def applyEffect (g : Grammar) (st : ScanState) : Effect → ScanState
  | .snapshot action => applySnapshot st action
  | .stack action => { st with current := g.applyAction st.current action }

def applyEffects (g : Grammar) (st : ScanState) (effects : List Effect) : ScanState :=
  effects.foldl g.applyEffect st

/-- What a match of a rule does, in order. -/
def Rule.effects (rule : Rule) : List Effect :=
  (rule.snapshot.map .snapshot).toList ++ (rule.action.map .stack).toList

@[simp] theorem applyEffects_nil (g : Grammar) (st : ScanState) : g.applyEffects st [] = st := rfl

@[simp] theorem applyEffects_cons (g : Grammar) (st : ScanState) (e : Effect) (rest : List Effect) :
    g.applyEffects st (e :: rest) = g.applyEffects (g.applyEffect st e) rest := rfl

@[simp] theorem applyEffects_append (g : Grammar) (st : ScanState) (effects rest : List Effect) :
    g.applyEffects st (effects ++ rest) = g.applyEffects (g.applyEffects st effects) rest :=
  List.foldl_append

theorem applyRule_eq_applyEffects (g : Grammar) (st : ScanState) (rule : Rule) :
    g.applyRule st rule = g.applyEffects st rule.effects := by
  unfold applyRule Rule.effects
  cases rule.snapshot <;> cases rule.action <;> rfl

/-! ### Chains -/

/-- A snapshot, the branches with the way back to it between them, and its end. -/
def chain (branches : List (List Effect)) : List Effect :=
  .snapshot .save :: ([Effect.snapshot .restore].intercalate branches ++ [.snapshot .delete])

/-- Effects on the stacks, with whole chains among them. -/
inductive IsBranch : List Effect → Prop
  | nil : IsBranch []
  | stack (action : StackAction Nat) {rest : List Effect} (hrest : IsBranch rest) :
      IsBranch (.stack action :: rest)
  | chain {branches : List (List Effect)} {rest : List Effect} (hne : branches ≠ [])
      (hbranches : ∀ branch ∈ branches, IsBranch branch) (hrest : IsBranch rest) :
      IsBranch (chain branches ++ rest)

/-- Whether effects change the current stacks by a function of these stacks alone, and leave the
pile of snapshots as it is. -/
def LeavesSaved (g : Grammar) (effects : List Effect) : Prop :=
  ∃ f : Stacks → Stacks, ∀ st, g.applyEffects st effects = { st with current := f st.current }

section

variable {g : Grammar}

/-- Branches that are run on top of a snapshot, from any current stacks behind a way back to it,
end as the last one does from the snapshot. -/
theorem applyEffects_intercalate {branches : List (List Effect)} (hne : branches ≠ [])
    (hbranches : ∀ branch ∈ branches, g.LeavesSaved branch) (s : Stacks) (saved : List Stacks) :
    g.applyEffects ⟨s, s :: saved⟩ ([Effect.snapshot .restore].intercalate branches) =
      g.applyEffects ⟨s, s :: saved⟩ (branches.getLast hne) := by
  induction branches with
  | nil => exact absurd rfl hne
  | cons branch branches ih =>
    obtain ⟨hbranch, hbranches⟩ := List.forall_mem_cons.1 hbranches
    rcases branches with _ | ⟨next, branches⟩
    · simp [List.intercalate]
    · obtain ⟨f, hf⟩ := hbranch
      have hback : g.applyEffect ⟨f s, s :: saved⟩ (.snapshot .restore) = ⟨s, s :: saved⟩ := rfl
      rw [List.getLast_cons (List.cons_ne_nil next branches),
        ← ih (List.cons_ne_nil next branches) hbranches]
      rw [List.intercalate_cons_cons, applyEffects_append, applyEffects_append, hf]
      exact congrArg (fun st => g.applyEffects st _) hback

/-- A chain of branches that leave the pile as it is does what the last of them does. -/
theorem applyEffects_chain {branches : List (List Effect)} (hne : branches ≠ [])
    (hbranches : ∀ branch ∈ branches, g.LeavesSaved branch) (st : ScanState) :
    g.applyEffects st (chain branches) = g.applyEffects st (branches.getLast hne) := by
  obtain ⟨f, hf⟩ := hbranches _ (List.getLast_mem hne)
  have hsave : g.applyEffect st (.snapshot .save) = ⟨st.current, st.current :: st.saved⟩ := rfl
  rw [chain, applyEffects_cons, hsave, applyEffects_append,
    applyEffects_intercalate hne hbranches, hf, hf]
  rfl

theorem IsBranch.leavesSaved {effects : List Effect} (h : IsBranch effects) :
    g.LeavesSaved effects := by
  induction h with
  | nil => exact ⟨id, fun _ => rfl⟩
  | stack action _ ih =>
    obtain ⟨f, hf⟩ := ih
    exact ⟨fun s => f (g.applyAction s action), fun st => hf _⟩
  | chain hne _ _ ihbranches ihrest =>
    obtain ⟨f, hf⟩ := ihbranches _ (List.getLast_mem hne)
    obtain ⟨f', hf'⟩ := ihrest
    refine ⟨f' ∘ f, fun st => ?_⟩
    rw [applyEffects_append, applyEffects_chain hne ihbranches, hf, hf']
    rfl

/-! ### The current context -/

/-- Whether there is a current context, now and in each snapshot. -/
structure ScanState.Entered (st : ScanState) : Prop where
  current : st.current.frames ≠ []
  saved : ∀ s ∈ st.saved, s.frames ≠ []

theorem frames_leave_ne_nil {s : Stacks} (h : s.frames ≠ []) : (leave s).frames ≠ [] := by
  unfold leave
  split
  · exact List.cons_ne_nil _ _
  · exact h

theorem frames_applyAction_ne_nil {s : Stacks} (h : s.frames ≠ []) (action : StackAction Nat) :
    (g.applyAction s action).frames ≠ [] := by
  cases action with
  | push context => exact List.cons_ne_nil _ _
  | pop replacement =>
    cases replacement with
    | none => exact frames_leave_ne_nil h
    | some context => exact List.cons_ne_nil _ _
  | pushScopes names => exact h
  | popScopes names => exact h

theorem ScanState.Entered.applyEffect {st : ScanState} (h : st.Entered) (e : Effect) :
    (g.applyEffect st e).Entered := by
  cases e with
  | stack action => exact ⟨frames_applyAction_ne_nil h.current action, h.saved⟩
  | snapshot action =>
    cases action with
    | save => exact ⟨h.current, List.forall_mem_cons.2 ⟨h.current, h.saved⟩⟩
    | delete => exact ⟨h.current, fun s hs => h.saved s (List.mem_of_mem_drop hs)⟩
    | restore =>
      obtain ⟨current, saved⟩ := st
      cases saved with
      | nil => exact h
      | cons s saved => exact ⟨h.saved s List.mem_cons_self, h.saved⟩

theorem ScanState.Entered.applyEffects {st : ScanState} (h : st.Entered) (effects : List Effect) :
    (g.applyEffects st effects).Entered := by
  induction effects generalizing st with
  | nil => exact h
  | cons e rest ih => exact ih (h.applyEffect e)

end

/-- A chain of branches does to the stacks what the last branch does from the same state, whatever
the other branches do, and the pile of snapshots ends as it was; there is a current context after
each of its effects. -/
theorem chain_acts_as_last_branch (g : Grammar) {branches : List (List Effect)}
    (hne : branches ≠ []) (hbranches : ∀ branch ∈ branches, IsBranch branch) {st : ScanState}
    (hst : st.Entered) :
    (g.applyEffects st (chain branches)).current =
        (g.applyEffects st (branches.getLast hne)).current ∧
      (g.applyEffects st (chain branches)).saved = st.saved ∧
      ∀ front, front <+: chain branches → (g.applyEffects st front).current.frames ≠ [] := by
  have hleaves (branch : List Effect) (h : branch ∈ branches) : g.LeavesSaved branch :=
    (hbranches branch h).leavesSaved
  rw [applyEffects_chain hne hleaves]
  refine ⟨rfl, ?_, fun front _ => (hst.applyEffects front).current⟩
  obtain ⟨f, hf⟩ := hleaves _ (List.getLast_mem hne)
  rw [hf]

/-- A first branch that leaves its context, with a chain inside that unwinds the scopes, and a second
one that opens a scope. -/
def leavingBranches : List (List Effect) :=
  [.stack (.pop none) :: chain [[.stack (.popScopes ["src"])]], [.stack (.pushScopes ["paren"])]]

theorem chain_acts_as_last_branch_leaving :
    leavingBranches ≠ [] ∧ (∀ branch ∈ leavingBranches, IsBranch branch) ∧
      ScanState.Entered ⟨⟨[⟨1, 1⟩, ⟨0, 0⟩], ["src"]⟩, []⟩ ∧
      ((⟨[⟨"Main", some "src", []⟩, ⟨"Inner", none, []⟩], 0, "invalid"⟩ : Grammar).applyEffects
        ⟨⟨[⟨1, 1⟩, ⟨0, 0⟩], ["src"]⟩, []⟩ (chain leavingBranches)).current =
          ⟨[⟨1, 1⟩, ⟨0, 0⟩], ["paren", "src"]⟩ := by
  have hne : leavingBranches ≠ [] := List.cons_ne_nil _ _
  have hbranches : ∀ branch ∈ leavingBranches, IsBranch branch := by
    have hinner : IsBranch [.stack (.popScopes ["src"])] := .stack _ .nil
    have hchain : IsBranch (chain [[.stack (.popScopes ["src"])]] ++ []) :=
      .chain (List.cons_ne_nil _ _) (List.forall_mem_singleton.2 hinner) .nil
    rw [List.append_nil] at hchain
    exact List.forall_mem_cons.2 ⟨.stack _ hchain, List.forall_mem_singleton.2 (.stack _ .nil)⟩
  have hst : ScanState.Entered ⟨⟨[⟨1, 1⟩, ⟨0, 0⟩], ["src"]⟩, []⟩ :=
    ⟨List.cons_ne_nil _ _, by simp⟩
  exact ⟨hne, hbranches, hst, (chain_acts_as_last_branch _ hne hbranches hst).1⟩

end HdlIndex.Grammar
