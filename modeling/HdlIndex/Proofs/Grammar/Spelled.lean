import HdlIndex.Proofs.Grammar.Contract

/-! Grammars read from their letters. A grammar whose entries are tidy is made by reading the pattern
of each entry from its letters and by copying the spliced rules in; nothing can go wrong on the way.
Main statement: the grammar of declarations is what is read from the letters of its entries, which are
those of the pieces that the sources are put together from. -/

namespace HdlIndex

namespace Grammar

/-! ### Entries -/

def ContextRef.numberIn (names : List String) : ContextRef → Nat
  | .named name => (names.idxOf? name).getD 0
  | .inPlace _ _ => 0

/-- The action with numbers for the names of contexts. -/
def actionIn (names : List String) : StackAction ContextRef → StackAction Nat
  | .push target => .push (target.numberIn names)
  | .pop replacement => .pop (replacement.map (·.numberIn names))
  | .pushScopes scopes => .pushScopes scopes
  | .popScopes scopes => .popScopes scopes

/-- The rule whose pattern is read from some letters. -/
def ruleOf (names : List String) (source : String) (letters : List Char) (scopes : List String)
    (action : Option (StackAction ContextRef)) (snapshot : Option SnapshotAction) : Rule :=
  ⟨source, (Pattern.ofChars? letters).getD .empty, scopes.map scopeOf, action.map (actionIn names),
    snapshot⟩

def Entry.readIn (names : List String) : Entry → ResolvedEntry
  | .splice target => .splice ((names.idxOf? target).getD 0)
  | .rule source scopes action snapshot =>
    .rule (ruleOf names source source.toList scopes action snapshot)

def ContextDef.readIn (names : List String) (c : ContextDef) : ResolvedContext :=
  ⟨c.name, scopeOf c.scope, c.entries.map (·.readIn names)⟩

/-- The grammar that is read from the letters of its entries. -/
def spelled (contexts : List ContextDef) : Grammar :=
  let names := contexts.map (·.name)
  let resolved := contexts.map (·.readIn names)
  let done := (collectAll resolved).toOption.getD []
  ⟨resolved.mapIdx fun index c => ⟨c.name, c.scope, rulesOf done index⟩,
    (names.idxOf? mainName).getD 0, defaultInvalidScope⟩

/-! ### Resolving tidy entries -/

section

variable {names : List String} {next : Nat} {e : Entry}

/-- The action of a tidy entry enters a context by its name, if it enters one. -/
theorem Entry.exists_name_of_isTidy (h : e.isTidy names) {target : ContextRef}
    (htarget : e.target? = some target) : ∃ name, target = .named name := by
  cases e with
  | splice => cases htarget
  | rule source scopes action snapshot =>
    rw [isTidy, Bool.and_eq_true] at h
    have hknown := (Option.all_eq_true _ _).1 h.1 target htarget
    cases target with
    | named name => exact ⟨name, rfl⟩
    | inPlace => cases hknown

theorem Entry.found_eq_nil (h : e.isTidy names) (context : String) (next : Nat) :
    e.found context next = [] := by
  rw [Entry.found]
  cases htarget : e.target? with
  | none => rfl
  | some target =>
    obtain ⟨name, rfl⟩ := Entry.exists_name_of_isTidy h htarget
    rfl

theorem foundIn_eq_nil {entries : List Entry} (h : ∀ e ∈ entries, e.isTidy names)
    (context : String) (next : Nat) : foundIn context next entries = [] := by
  induction entries generalizing next with
  | nil => rfl
  | cons e entries ih =>
    obtain ⟨he, hentries⟩ := List.forall_mem_cons.1 h
    rw [foundIn, Entry.found_eq_nil he, ih hentries, List.nil_append]

theorem eq_actionIn_of_renames {a : StackAction ContextRef} {b : StackAction Nat}
    (hrenames : a.Renames (ContextRef.HasNumber names next) b)
    (h : ∀ target, a.target? = some target → ∃ name, target = .named name) :
    b = actionIn names a := by
  have hnumber {target : ContextRef} {number : Nat} (htarget : a.target? = some target)
      (hnumber : target.HasNumber names next number) : number = target.numberIn names := by
    obtain ⟨name, rfl⟩ := h target htarget
    exact (congrArg (·.getD 0) hnumber).symm
  cases hrenames with
  | push hx => exact congrArg _ (hnumber rfl hx)
  | leave => rfl
  | replace hx => exact congrArg _ (congrArg some (hnumber rfl hx))
  | pushScopes => rfl
  | popScopes => rfl

theorem Entry.Becomes.eq_readIn {r : ResolvedEntry} (hbecomes : e.Becomes names next r)
    (h : e.isTidy names) : r = e.readIn names := by
  cases hbecomes with
  | splice hindex => rw [Entry.readIn, hindex, Option.getD_some]
  | rule hpattern _ haction =>
    rw [Pattern.compile?] at hpattern
    rw [Entry.readIn, ruleOf, hpattern, Option.getD_some]
    cases haction with
    | none => rfl
    | some hrenames =>
      rw [eq_actionIn_of_renames hrenames fun _ htarget => Entry.exists_name_of_isTidy h htarget]
      rfl

theorem AllBecome.eq_readIn {entries : List Entry} {resolved : List ResolvedEntry}
    (hbecome : AllBecome names next entries resolved) (h : ∀ e ∈ entries, e.isTidy names) :
    resolved = entries.map (·.readIn names) := by
  induction hbecome with
  | nil => rfl
  | cons hfirst _ ih =>
    obtain ⟨he, hentries⟩ := List.forall_mem_cons.1 h
    rw [List.map_cons, hfirst.eq_readIn he, ih hentries]

theorem resolveEntries_eq (context : String) {entries : List Entry}
    (h : ∀ e ∈ entries, e.isTidy names) :
    resolveEntries names context next entries = .ok (entries.map (·.readIn names), []) := by
  obtain ⟨resolved, hresolved, hbecome⟩ :=
    exists_resolveEntries_eq_ok context next fun e he => Entry.resolves_of_isTidy (h e he)
  rw [hresolved, hbecome.eq_readIn h, foundIn_eq_nil h]

end

/-! ### Contexts -/

/-- No context is found while tidy entries are resolved, so a queue does not grow. -/
theorem resolveQueue_eq {names : List String} (next : Nat) {bound : Nat} {queue : List ContextDef}
    (h : ∀ c ∈ queue, ∀ e ∈ c.entries, e.isTidy names) (hbound : queue.length ≤ bound) :
    resolveQueue names bound next queue = .ok (queue.map (·.readIn names)) := by
  induction queue generalizing bound with
  | nil => cases bound <;> rfl
  | cons c queue ih =>
    obtain ⟨hc, hqueue⟩ := List.forall_mem_cons.1 h
    cases bound with
    | zero => cases hbound
    | succ bound =>
      rw [resolveQueue, resolveEntries_eq c.name hc]
      show (resolveQueue names bound next (queue ++ []) >>= _) = _
      rw [List.append_nil, ih hqueue (Nat.le_of_succ_le_succ hbound)]
      rfl

/-- What is built from tidy entries is read from their letters. -/
theorem eq_spelled_of_build {contexts : List ContextDef} (h : areTidy contexts) {g : Grammar}
    (hg : build contexts none = .ok g) : g = spelled contexts := by
  have hqueue (next : Nat) {bound : Nat} (hbound : contexts.length ≤ bound) :=
    resolveQueue_eq next (fun c hc e he => isTidy_of_mem h hc he) hbound
  rw [build] at hg
  split at hg
  · cases hg
  · split at hg
    · cases hg
    · next main hmain =>
      dsimp only at hg
      rw [hqueue contexts.length (Nat.le_add_right _ _)] at hg
      change (collectAll (contexts.map (·.readIn (contexts.map (·.name)))) >>= _) = _ at hg
      rw [spelled, hmain]
      cases hdone : collectAll (contexts.map (·.readIn (contexts.map (·.name)))) with
      | error e =>
        rw [hdone] at hg
        cases hg
      | ok done =>
        rw [hdone] at hg
        cases hg
        rfl

/-! ### The grammar of declarations -/

theorem structural_eq :
    structural = spelled [Structural.top, Structural.keywordRules, Structural.punctuation,
      Structural.stringBody, Structural.commentBody, Structural.attributeBody] :=
  eq_spelled_of_build areTidy_structural build_structural

/-- The grammar of declarations for computations: the letters of its sources are written out, so that no
text has to be taken apart. -/
def structuralInPieces : { g : Grammar // structural = g } :=
  ⟨_, structural_eq.trans <| by
    simp only [spelled, ContextDef.readIn, Structural.top, Structural.keywordRules,
      Structural.punctuation, Structural.stringBody, Structural.commentBody,
      Structural.attributeBody, Structural.keywords, Structural.opening, Structural.closing,
      List.map_cons, List.map_nil, Entry.readIn, plain, acting]
    unfold identifierPattern numberPattern Structural.operatorPattern Structural.wordsPattern
    simp only [String.toList_append, String.toList_intercalate, List.map_cons, List.map_nil,
      String.reduceToList, -String.reduceAppend]
    -- What the left side has become is the grammar.
    rfl⟩

theorem structural_eq_inPieces : structural = structuralInPieces.1 := structuralInPieces.2

/-! ### The grammar of directives -/

theorem directives_eq : directives = spelled [Directive.top, Directive.comment] :=
  eq_spelled_of_build areTidy_directives build_directives

/-- The grammar of directives for computations, as that of declarations. -/
def directivesInPieces : { g : Grammar // directives = g } :=
  ⟨_, directives_eq.trans <| by
    simp only [spelled, ContextDef.readIn, Directive.top, Directive.comment, List.map_cons,
      List.map_nil, Entry.readIn, plain, acting, marking]
    unfold identifierPattern numberPattern
    simp only [String.toList_append, String.reduceToList, -String.reduceAppend]
    rfl⟩

theorem directives_eq_inPieces : directives = directivesInPieces.1 := directivesInPieces.2

end Grammar

end HdlIndex
