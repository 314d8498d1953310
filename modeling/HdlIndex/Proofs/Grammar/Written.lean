import HdlIndex.Grammar.Shorthand
import HdlIndex.Proofs.Grammar.Splices

/-! Where the rules of a grammar come from. Main statement: every rule of a grammar that was built
is an entry of one of its contexts as written, or of a context written in place, with the pattern
that its source stands for, and the scopes of its contexts were written as well. -/

namespace HdlIndex

/-- The context that an action enters. -/
def StackAction.target? {ρ : Type} : StackAction ρ → Option ρ
  | push context => some context
  | pop replacement => replacement
  | pushScopes _ | popScopes _ => none

namespace Grammar

/-- Entries of contexts as written, and of contexts written in place in such entries. -/
inductive Written (contexts : List ContextDef) : Entry → Prop
  | listed {c : ContextDef} {e : Entry} (hc : c ∈ contexts) (he : e ∈ c.entries) :
      Written contexts e
  | inPlace {source : String} {scopes : List String} {action : StackAction ContextRef}
      {snapshot : Option SnapshotAction} {scope : String} {entries : List Entry} {e : Entry}
      (h : Written contexts (.rule source scopes (some action) snapshot))
      (htarget : action.target? = some (.inPlace scope entries)) (he : e ∈ entries) :
      Written contexts e

/-- Scopes of contexts as written, and of contexts written in place. -/
inductive WrittenScope (contexts : List ContextDef) : String → Prop
  | listed {c : ContextDef} (hc : c ∈ contexts) : WrittenScope contexts c.scope
  | inPlace {source : String} {scopes : List String} {action : StackAction ContextRef}
      {snapshot : Option SnapshotAction} {scope : String} {entries : List Entry}
      (h : Written contexts (.rule source scopes (some action) snapshot))
      (htarget : action.target? = some (.inPlace scope entries)) : WrittenScope contexts scope

/-- Whether a context was written, as one of the contexts or in place. -/
structure WrittenContext (contexts : List ContextDef) (c : ContextDef) : Prop where
  scope : WrittenScope contexts c.scope
  entries : ∀ e ∈ c.entries, Written contexts e

/-- Whether a rule was written, its source read as its pattern, and the scopes that it pushes kept. -/
def Rule.ComesFrom (contexts : List ContextDef) (rule : Rule) : Prop :=
  ∃ scopes action, Written contexts (.rule rule.source scopes action rule.snapshot) ∧
    Pattern.compile? rule.source = some rule.pattern ∧ rule.scopes = scopes.map scopeOf ∧
      ∀ names, rule.action = some (.pushScopes names) → action = some (.pushScopes names)

section

variable {contexts : List ContextDef} {names : List String} {context : String} {next : Nat}

theorem target?_of_resolveRef {target : ContextRef} {id : Nat} {found : List ContextDef}
    (h : resolveRef names context next target = .ok (id, found)) :
    ∀ d ∈ found, target = .inPlace d.scope d.entries := by
  cases target with
  | named name =>
    obtain ⟨index, -, h⟩ := exists_of_bind_eq_ok h
    cases h
    simp
  | inPlace scope entries =>
    cases h
    simp

/-- Contexts that are found while an action is resolved are written in place in it, and the scopes
that it pushes stay. -/
theorem target?_of_resolveAction {action : StackAction ContextRef} {resolved : StackAction Nat}
    {found : List ContextDef}
    (h : resolveAction names context next action = .ok (resolved, found)) :
    (∀ d ∈ found, action.target? = some (.inPlace d.scope d.entries)) ∧
      ∀ scopes, resolved = .pushScopes scopes → action = .pushScopes scopes := by
  cases action with
  | push target =>
    obtain ⟨⟨id, more⟩, href, h⟩ := exists_of_bind_eq_ok h
    cases h
    exact ⟨fun d hd => congrArg some (target?_of_resolveRef href d hd), by simp⟩
  | pop replacement =>
    cases replacement with
    | none =>
      cases h
      simp
    | some target =>
      obtain ⟨⟨id, more⟩, href, h⟩ := exists_of_bind_eq_ok h
      cases h
      exact ⟨fun d hd => congrArg some (target?_of_resolveRef href d hd), by simp⟩
  | pushScopes scopes =>
    cases h
    simp
  | popScopes scopes =>
    cases h
    simp

/-- The last part of resolving a rule, behind its action. -/
def finishRule (context source : String) (scopes : List String) (snapshot : Option SnapshotAction)
    (action : Option (StackAction Nat)) (found : List ContextDef) :
    Except BuildError (ResolvedEntry × List ContextDef) :=
  match Pattern.compile? source with
  | none => .error (.invalidPattern context source)
  | some pattern =>
    if pattern.groups + 1 ≠ scopes.length then
      .error (.scopeCount context source pattern.groups scopes.length)
    else .ok (.rule ⟨source, pattern, scopes.map scopeOf, action, snapshot⟩, found)

theorem resolveEntry_rule (source : String) (scopes : List String)
    (action : Option (StackAction ContextRef)) (snapshot : Option SnapshotAction) :
    resolveEntry names context next (.rule source scopes action snapshot) =
      match action with
      | none => finishRule context source scopes snapshot none []
      | some action => resolveAction names context next action >>= fun x =>
        finishRule context source scopes snapshot (some x.1) x.2 := by
  cases action <;> rfl

theorem comesFrom_of_finishRule {source : String} {scopes : List String}
    {action : Option (StackAction ContextRef)} {snapshot : Option SnapshotAction}
    {action' : Option (StackAction Nat)} {found found' : List ContextDef} {resolved : ResolvedEntry}
    (he : Written contexts (.rule source scopes action snapshot))
    (haction : ∀ names, action' = some (.pushScopes names) → action = some (.pushScopes names))
    (h : finishRule context source scopes snapshot action' found = .ok (resolved, found')) :
    found' = found ∧ ∀ rule, resolved = .rule rule → rule.ComesFrom contexts := by
  rw [finishRule] at h
  split at h
  · cases h
  · next pattern hpattern =>
    split at h
    · cases h
    · cases h
      refine ⟨rfl, ?_⟩
      intro rule hrule
      cases hrule
      exact ⟨scopes, action, he, hpattern, rfl, haction⟩

theorem written_of_resolveEntry {e : Entry} {resolved : ResolvedEntry} {found : List ContextDef}
    (he : Written contexts e) (h : resolveEntry names context next e = .ok (resolved, found)) :
    (∀ rule, resolved = .rule rule → rule.ComesFrom contexts) ∧
      ∀ d ∈ found, WrittenContext contexts d := by
  cases e with
  | splice target =>
    obtain ⟨index, -, h⟩ := exists_of_bind_eq_ok h
    cases h
    simp
  | rule source scopes action snapshot =>
    rw [resolveEntry_rule] at h
    cases action with
    | none =>
      obtain ⟨rfl, hrule⟩ := comesFrom_of_finishRule he (by simp) h
      exact ⟨hrule, by simp⟩
    | some action =>
      obtain ⟨⟨action', here⟩, haction, h⟩ := exists_of_bind_eq_ok h
      obtain ⟨htarget, hpushed⟩ := target?_of_resolveAction haction
      obtain ⟨rfl, hrule⟩ := comesFrom_of_finishRule he
        (fun scopes hscopes => congrArg some (hpushed scopes (Option.some.inj hscopes))) h
      refine ⟨hrule, fun d hd => ⟨.inPlace he (htarget d hd), fun e hin => ?_⟩⟩
      exact .inPlace he (htarget d hd) hin

theorem written_of_resolveEntries {entries : List Entry} {resolved : List ResolvedEntry}
    {found : List ContextDef} (he : ∀ e ∈ entries, Written contexts e)
    (h : resolveEntries names context next entries = .ok (resolved, found)) :
    (∀ rule, .rule rule ∈ resolved → rule.ComesFrom contexts) ∧
      ∀ d ∈ found, WrittenContext contexts d := by
  induction entries generalizing next resolved found with
  | nil =>
    cases h
    simp
  | cons e entries ih =>
    obtain ⟨⟨first, here⟩, hfirst, h⟩ := exists_of_bind_eq_ok h
    obtain ⟨⟨rest, more⟩, hrest, h⟩ := exists_of_bind_eq_ok h
    cases h
    obtain ⟨hrule, hhere⟩ := written_of_resolveEntry (he e List.mem_cons_self) hfirst
    obtain ⟨hrules, hmore⟩ := ih (fun e he' => he e (List.mem_cons_of_mem _ he')) hrest
    refine ⟨?_, ?_⟩
    · intro rule hmem
      rcases List.mem_cons.1 hmem with heq | hmem
      · exact hrule rule heq.symm
      · exact hrules rule hmem
    · intro d hd
      rcases List.mem_append.1 hd with hd | hd
      · exact hhere d hd
      · exact hmore d hd

theorem written_of_resolveQueue {bound : Nat} {queue : List ContextDef}
    {resolved : List ResolvedContext} (hq : ∀ c ∈ queue, WrittenContext contexts c)
    (h : resolveQueue names bound next queue = .ok resolved) :
    ∀ c ∈ resolved, (∃ scope, WrittenScope contexts scope ∧ c.scope = scopeOf scope) ∧
      ∀ rule, .rule rule ∈ c.entries → rule.ComesFrom contexts := by
  induction bound generalizing next queue resolved with
  | zero =>
    cases queue with
    | nil =>
      cases h
      simp
    | cons =>
      cases h
      simp
  | succ bound ih =>
    cases queue with
    | nil =>
      cases h
      simp
    | cons c queue =>
      obtain ⟨⟨entries, found⟩, hentries, h⟩ := exists_of_bind_eq_ok h
      obtain ⟨rest, hrest, h⟩ := exists_of_bind_eq_ok h
      cases h
      obtain ⟨hscope, hwritten⟩ := hq c List.mem_cons_self
      obtain ⟨hrules, hfound⟩ := written_of_resolveEntries hwritten hentries
      have hmore : ∀ d ∈ queue ++ found, WrittenContext contexts d := by
        intro d hd
        rcases List.mem_append.1 hd with hd | hd
        · exact hq d (List.mem_cons_of_mem c hd)
        · exact hfound d hd
      intro d hd
      rcases List.mem_cons.1 hd with rfl | hd
      · exact ⟨⟨c.scope, hscope, rfl⟩, hrules⟩
      · exact ih hmore hrest d hd

end

/-- Every rule of a grammar that was built comes from an entry, and so do the scopes of contexts. -/
theorem comesFrom_of_build {contexts : List ContextDef} {invalidScope : Option String}
    {g : Grammar} (h : build contexts invalidScope = .ok g) :
    (∀ c ∈ g.contexts, (∃ scope, WrittenScope contexts scope ∧ c.scope = scopeOf scope) ∧
      ∀ rule ∈ c.rules, rule.ComesFrom contexts) ∧
        g.invalidScope = invalidScope.getD defaultInvalidScope := by
  rw [build] at h
  split at h
  · cases h
  · split at h
    · cases h
    · obtain ⟨resolved, hresolved, h⟩ := exists_of_bind_eq_ok h
      obtain ⟨done, hdone, h⟩ := exists_of_bind_eq_ok h
      cases h
      have hwritten := written_of_resolveQueue
        (fun c hc => ⟨.listed hc, fun e he => .listed hc he⟩) hresolved
      refine ⟨fun c hc => ?_, rfl⟩
      obtain ⟨index, hindex, rfl⟩ := List.mem_mapIdx.1 hc
      refine ⟨(hwritten _ (List.getElem_mem hindex)).1, fun rule hrule => ?_⟩
      obtain ⟨d, hd, hin⟩ := (expands_of_collectAll hdone index).exists_of_mem rule hrule
      exact (hwritten d hd).2 rule hin

end Grammar

end HdlIndex
