import HdlIndex.Grammar.Build
import HdlIndex.Proofs.Steps
import Mathlib.Data.List.Perm.Subperm
import Mathlib.Logic.Relation

/-! The rules of a context with all spliced rules copied in. A context whose rules are known is not
gone through again, and the contexts whose rules are being collected are marked. Main statements:
what is collected is the expansion of each context by recursion, and the search fails exactly if a
context is spliced into itself, however indirectly. -/

namespace HdlIndex

namespace Grammar

open Relation

/-- The entries of a context, by number. -/
def entriesAt (contexts : List ResolvedContext) (index : Nat) : List ResolvedEntry :=
  (contexts[index]?.map (·.entries)).getD []

/-- Whether a context has the rules of another one spliced in. -/
def SplicesAt (contexts : List ResolvedContext) (index target : Nat) : Prop :=
  .splice target ∈ entriesAt contexts index

/-- The rules of an entry, if the rules of each context are known. -/
def ResolvedEntry.rulesWith (rules : Nat → List Rule) : ResolvedEntry → List Rule
  | .rule r => [r]
  | .splice target => rules target

/-- The rules that a context expands to: its entries in order, with the expansion of the context in
place of each splice. -/
inductive Expands (contexts : List ResolvedContext) : Nat → List Rule → Prop
  | context {index : Nat} (rules : Nat → List Rule)
      (h : ∀ target, SplicesAt contexts index target → Expands contexts target (rules target)) :
      Expands contexts index ((entriesAt contexts index).flatMap (·.rulesWith rules))

variable {contexts : List ResolvedContext}

theorem flatMap_rulesWith_congr {entries : List ResolvedEntry} {rules rules' : Nat → List Rule}
    (h : ∀ target, .splice target ∈ entries → rules target = rules' target) :
    entries.flatMap (·.rulesWith rules) = entries.flatMap (·.rulesWith rules') := by
  refine List.flatMap_congr fun e he => ?_
  cases e with
  | rule r => rfl
  | splice target => exact h target he

namespace Expands

theorem unique {index : Nat} {rules rules' : List Rule} (h : Expands contexts index rules)
    (h' : Expands contexts index rules') : rules = rules' := by
  induction h generalizing rules' with
  | context f _ ih =>
    obtain ⟨f', hf'⟩ := h'
    exact flatMap_rulesWith_congr fun target htarget => ih target htarget (hf' target htarget)

/-- A context that has an expansion is not spliced into itself. -/
theorem not_transGen {index : Nat} {rules : List Rule} (h : Expands contexts index rules) :
    ¬TransGen (SplicesAt contexts) index index := by
  induction h with
  | context _ _ ih =>
    intro hcycle
    obtain ⟨target, hsplices, hback⟩ := TransGen.head'_iff.1 hcycle
    exact ih target hsplices (TransGen.tail' hback hsplices)

theorem exists_of_mem {index : Nat} {rules : List Rule} (h : Expands contexts index rules) :
    ∀ rule ∈ rules, ∃ c ∈ contexts, .rule rule ∈ c.entries := by
  induction h with
  | @context index f _ ih =>
    intro rule hrule
    obtain ⟨e, he, hin⟩ := List.mem_flatMap.1 hrule
    cases e with
    | splice target => exact ih target he rule hin
    | rule r =>
      obtain rfl := List.mem_singleton.1 hin
      rw [entriesAt] at he
      cases hc : contexts[index]? with
      | none => simp [hc] at he
      | some c =>
        rw [hc] at he
        exact ⟨c, List.mem_of_getElem? hc, he⟩

end Expands

theorem entriesAt_eq {index : Nat} {c : ResolvedContext} (h : contexts[index]? = some c) :
    entriesAt contexts index = c.entries := by
  rw [entriesAt, h]
  rfl

theorem expands_of_none {index : Nat} (h : contexts[index]? = none) :
    Expands contexts index [] := by
  have hentries : entriesAt contexts index = [] := by
    rw [entriesAt, h]
    rfl
  have hsplices : ∀ target, SplicesAt contexts index target → Expands contexts target [] := by
    intro target htarget
    rw [SplicesAt, hentries] at htarget
    cases htarget
  have hexpands := Expands.context (fun _ => []) hsplices
  rwa [hentries] at hexpands

/-! ### What is collected -/

/-- Whether the rules that are known are expansions. -/
structure Sound (contexts : List ResolvedContext) (done : RuleTable) : Prop where
  length : done.length = contexts.length
  expands : ∀ index rules, done[index]? = some (some rules) → Expands contexts index rules

/-- What a search that does not fail leads to: expansions stay, and that of a context is known. -/
structure Collects (contexts : List ResolvedContext) (target : Nat) (done done' : RuleTable) :
    Prop where
  sound : Sound contexts done'
  keeps : ∀ index, Expands contexts index (rulesOf done index) →
    Expands contexts index (rulesOf done' index)
  expands : Expands contexts target (rulesOf done' target)

namespace Sound

variable {done : RuleTable}

/-- A context that is done is left as it is. -/
theorem collects_of_isSome (h : Sound contexts done) {index : Nat}
    (hdone : done[index]?.join.isSome) : Collects contexts index done done := by
  refine ⟨h, fun _ hother => hother, ?_⟩
  obtain ⟨rules, hrules⟩ := Option.isSome_iff_exists.1 hdone
  rw [rulesOf, hrules]
  exact h.expands index rules (Option.join_eq_some_iff.1 hrules)

theorem collects_of_none (h : Sound contexts done) {index : Nat} (hnone : contexts[index]? = none) :
    Collects contexts index done done := by
  refine ⟨h, fun _ hother => hother, ?_⟩
  have hdone : done[index]? = none := by
    rw [List.getElem?_eq_none_iff, h.length]
    exact List.getElem?_eq_none_iff.1 hnone
  rw [rulesOf, hdone]
  exact expands_of_none hnone

/-- A context that was expanded is put down. -/
theorem set (h : Sound contexts done) {index : Nat} {rules : List Rule}
    (hindex : index < contexts.length) (hrules : Expands contexts index rules) :
    Collects contexts index done (done.set index (some rules)) := by
  have hself : rulesOf (done.set index (some rules)) index = rules := by
    rw [rulesOf, List.getElem?_set_self (h.length ▸ hindex)]
    rfl
  have hother (other : Nat) (hne : index ≠ other) :
      (done.set index (some rules))[other]? = done[other]? := List.getElem?_set_ne hne
  refine ⟨⟨?_, fun other rules' hother' => ?_⟩, fun other hold => ?_, hself.symm ▸ hrules⟩
  · rw [List.length_set, h.length]
  · by_cases hne : index = other
    · subst hne
      rw [List.getElem?_set_self (h.length ▸ hindex)] at hother'
      cases hother'
      exact hrules
    · rw [hother other hne] at hother'
      exact h.expands other rules' hother'
  · by_cases hne : index = other
    · subst hne
      exact hself.symm ▸ hrules
    · rw [rulesOf, hother other hne]
      exact hold

/-- The entries of a context, one after another: each splice puts the expansion of its context into
the rules. -/
theorem foldlM_collectEntry {collect : Nat → RuleTable → Except BuildError RuleTable}
    (hcollect : ∀ target done done', Sound contexts done → collect target done = .ok done' →
      Collects contexts target done done')
    {entries : List ResolvedEntry} {rules rules' : List Rule} {done' : RuleTable}
    (h : Sound contexts done)
    (hfold : entries.foldlM (collectEntry collect) (rules, done) = .ok (rules', done')) :
    Sound contexts done' ∧
      (∀ index, Expands contexts index (rulesOf done index) →
        Expands contexts index (rulesOf done' index)) ∧
      (∀ target, .splice target ∈ entries → Expands contexts target (rulesOf done' target)) ∧
      rules' = rules ++ entries.flatMap (·.rulesWith (rulesOf done')) := by
  induction entries generalizing rules done with
  | nil =>
    cases hfold
    exact ⟨h, fun _ hindex => hindex, by simp, by simp⟩
  | cons e entries ih =>
    rw [List.foldlM_cons] at hfold
    cases e with
    | rule r =>
      obtain ⟨hsound, hkeeps, hsplices, rfl⟩ := ih h hfold
      refine ⟨hsound, hkeeps, fun target htarget => hsplices target ?_, ?_⟩
      · simpa using htarget
      · rw [List.flatMap_cons, List.append_assoc]
        rfl
    | splice target =>
      obtain ⟨⟨rules₁, done₁⟩, hstep, hfold⟩ := exists_of_bind_eq_ok hfold
      obtain ⟨done₂, htarget, hstep⟩ := exists_of_bind_eq_ok hstep
      cases hstep
      have hcollects := hcollect target done done₁ h htarget
      obtain ⟨hsound, hkeeps, hsplices, rfl⟩ := ih hcollects.sound hfold
      have hexpands := hkeeps target hcollects.expands
      refine ⟨hsound, fun index hindex => hkeeps index (hcollects.keeps index hindex), ?_, ?_⟩
      · intro other hother
        rcases List.mem_cons.1 hother with heq | hother
        · cases heq
          exact hexpands
        · exact hsplices other hother
      · -- The table still says what was spliced in when all entries are done.
        have hsame := hcollects.expands.unique hexpands
        rw [List.flatMap_cons, ← List.append_assoc, hsame]
        rfl

/-- A search that does not fail finds the expansion of the context. -/
theorem collects (h : Sound contexts done) {bound index : Nat} {pending : List Nat}
    {done' : RuleTable} (hcollect : collectRules contexts bound pending index done = .ok done') :
    Collects contexts index done done' := by
  induction bound generalizing pending index done done' with
  | zero =>
    rw [collectRules] at hcollect
    split at hcollect
    · next hnone =>
      cases hcollect
      exact h.collects_of_none hnone
    · split at hcollect
      · next hdone =>
        cases hcollect
        exact h.collects_of_isSome hdone
      · split at hcollect
        · cases hcollect
        · cases hcollect
  | succ bound ih =>
    rw [collectRules] at hcollect
    split at hcollect
    · next hnone =>
      cases hcollect
      exact h.collects_of_none hnone
    · next c hc =>
      split at hcollect
      · next hdone =>
        cases hcollect
        exact h.collects_of_isSome hdone
      · split at hcollect
        · cases hcollect
        · obtain ⟨⟨rules, done₁⟩, hfold, hcollect⟩ := exists_of_bind_eq_ok hcollect
          cases hcollect
          obtain ⟨hsound, hkeeps, hsplices, rfl⟩ :=
            h.foldlM_collectEntry (fun _ _ _ hsound => ih hsound) hfold
          have hindex : index < contexts.length := (List.getElem?_eq_some_iff.1 hc).1
          rw [← entriesAt_eq hc] at hsplices
          rw [List.nil_append, ← entriesAt_eq hc]
          have hset := hsound.set hindex (.context (rulesOf done₁) hsplices)
          exact ⟨hset.sound, fun other hother => hset.keeps other (hkeeps other hother),
            hset.expands⟩

end Sound

theorem sound_replicate : Sound contexts (List.replicate contexts.length none) := by
  refine ⟨List.length_replicate, fun index rules hrules => ?_⟩
  rw [List.getElem?_replicate] at hrules
  split at hrules
  · cases hrules
  · cases hrules

/-- What is collected for each context is its expansion. -/
theorem expands_of_collectAll {done : RuleTable} (h : collectAll contexts = .ok done)
    (index : Nat) : Expands contexts index (rulesOf done index) := by
  have hfold (indices : List Nat) {start : RuleTable} (hstart : Sound contexts start)
      (h : indices.foldlM (fun done index => collectRules contexts contexts.length [] index done)
        start = .ok done) :
      Sound contexts done ∧
        (∀ index, Expands contexts index (rulesOf start index) →
          Expands contexts index (rulesOf done index)) ∧
        ∀ index ∈ indices, Expands contexts index (rulesOf done index) := by
    induction indices generalizing start with
    | nil =>
      cases h
      exact ⟨hstart, fun _ hindex => hindex, by simp⟩
    | cons first indices ih =>
      rw [List.foldlM_cons] at h
      obtain ⟨next, hnext, h⟩ := exists_of_bind_eq_ok h
      have hcollects := hstart.collects hnext
      obtain ⟨hsound, hkeeps, hindices⟩ := ih hcollects.sound h
      refine ⟨hsound, fun other hother => hkeeps other (hcollects.keeps other hother), ?_⟩
      exact List.forall_mem_cons.2 ⟨hkeeps first hcollects.expands, hindices⟩
  obtain ⟨hsound, -, hindices⟩ := hfold _ sound_replicate h
  by_cases hindex : index < contexts.length
  · exact hindices index (List.mem_range.2 hindex)
  · exact (hsound.collects_of_none (List.getElem?_eq_none (Nat.le_of_not_lt hindex))).expands

/-! ### Cycles -/

/-- Entries that cannot be gone through have a splice that cannot be followed. -/
theorem exists_of_foldlM_collectEntry {collect : Nat → RuleTable → Except BuildError RuleTable}
    {entries : List ResolvedEntry} {state : List Rule × RuleTable} {e : BuildError}
    (h : entries.foldlM (collectEntry collect) state = .error e) :
    ∃ target, .splice target ∈ entries ∧ ∃ done, collect target done = .error e := by
  obtain ⟨entry, hentry, ⟨rules, done⟩, hfails⟩ := exists_of_foldlM_eq_error h
  cases entry with
  | rule r => cases hfails
  | splice target =>
    rcases eq_error_of_bind_eq_error hfails with hcollect | ⟨done', -, hfails⟩
    · exact ⟨target, hentry, done, hcollect⟩
    · cases hfails

/-- A search fails on a context that is spliced into itself. The pending contexts are a way to the
context in question, and as many as can be left out of the bound. -/
theorem exists_transGen_of_collectRules {bound index : Nat} {pending : List Nat} {done : RuleTable}
    {e : BuildError} (hbound : contexts.length ≤ bound + pending.length) (hnodup : pending.Nodup)
    (hpending : ∀ other ∈ pending, other < contexts.length ∧
      TransGen (SplicesAt contexts) other index)
    (h : collectRules contexts bound pending index done = .error e) :
    ∃ i c, contexts[i]? = some c ∧ e = .spliceCycle c.name ∧
      TransGen (SplicesAt contexts) i i := by
  induction bound generalizing pending index done with
  | zero =>
    rw [collectRules] at h
    split at h
    · cases h
    · next c hc =>
      split at h
      · cases h
      · -- All contexts are pending, so this one is, too.
        have hindex : index ∈ pending := by
          have hsubset : pending ⊆ List.range contexts.length :=
            fun other hother => List.mem_range.2 (hpending other hother).1
          have hperm := (hnodup.subperm hsubset).perm_of_length_le
            (by rw [List.length_range]; omega)
          exact hperm.mem_iff.2 (List.mem_range.2 (List.getElem?_eq_some_iff.1 hc).1)
        rw [if_pos (List.contains_iff_mem.2 hindex)] at h
        cases h
        exact ⟨index, c, hc, rfl, (hpending index hindex).2⟩
  | succ bound ih =>
    rw [collectRules] at h
    split at h
    · cases h
    · next c hc =>
      split at h
      · cases h
      · split at h
        · next hindex =>
          cases h
          exact ⟨index, c, hc, rfl, (hpending index (List.contains_iff_mem.1 hindex)).2⟩
        · next hnew =>
          rcases eq_error_of_bind_eq_error h with hfold | ⟨result, -, h⟩
          · obtain ⟨target, htarget, done', hfails⟩ := exists_of_foldlM_collectEntry hfold
            have hsplices : SplicesAt contexts index target := by
              rwa [SplicesAt, entriesAt_eq hc]
            have hindex : index ∉ pending := fun hmem => hnew (List.contains_iff_mem.2 hmem)
            refine ih ?_ (List.nodup_cons.2 ⟨hindex, hnodup⟩)
              (List.forall_mem_cons.2 ⟨?_, fun other hother => ?_⟩) hfails
            · rw [List.length_cons]
              omega
            · exact ⟨(List.getElem?_eq_some_iff.1 hc).1, .single hsplices⟩
            · exact ⟨(hpending other hother).1, (hpending other hother).2.tail hsplices⟩
          · cases h

/-- To collect all rules fails on a context that is spliced into itself. -/
theorem exists_transGen_of_collectAll {e : BuildError} (h : collectAll contexts = .error e) :
    ∃ i c, contexts[i]? = some c ∧ e = .spliceCycle c.name ∧
      TransGen (SplicesAt contexts) i i := by
  obtain ⟨index, -, done, hfails⟩ := exists_of_foldlM_eq_error h
  exact exists_transGen_of_collectRules (Nat.le_add_right _ _) .nil (by simp) hfails

/-- All rules can be collected exactly if no context is spliced into itself. -/
theorem exists_collectAll_eq_ok_iff :
    (∃ done, collectAll contexts = .ok done) ↔ ∀ i, ¬TransGen (SplicesAt contexts) i i := by
  constructor
  · rintro ⟨done, hdone⟩ i
    exact (expands_of_collectAll hdone i).not_transGen
  · intro hacyclic
    cases h : collectAll contexts with
    | ok done => exact ⟨done, rfl⟩
    | error e =>
      obtain ⟨i, -, -, -, hcycle⟩ := exists_transGen_of_collectAll h
      exact absurd hcycle (hacyclic i)

/-- The rules that are collected are the entries in order, with the rules of the context in place of
each splice. -/
theorem rulesOf_of_collectAll {done : RuleTable} (h : collectAll contexts = .ok done)
    (index : Nat) :
    rulesOf done index = (entriesAt contexts index).flatMap (·.rulesWith (rulesOf done)) :=
  (expands_of_collectAll h index).unique (.context _ fun target _ => expands_of_collectAll h target)

end Grammar

end HdlIndex
