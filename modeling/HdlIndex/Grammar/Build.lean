import HdlIndex.Grammar.Basic

/-! Making a grammar runnable. Contexts are numbered: first the named ones as they are listed,
then those written in place, in the order in which they are found while the contexts are
resolved one after another. Then the spliced rules are copied in. -/

namespace HdlIndex.Grammar

/-! ### Counting contexts -/

mutual

/-- Number of contexts written in place below a reference, itself included. -/
def ContextRef.inPlaceCount : ContextRef → Nat
  | .named _ => 0
  | .inPlace _ entries => 1 + inPlaceCountAll entries

def Entry.inPlaceCount : Entry → Nat
  | .rule _ _ (some (.push target)) _ => target.inPlaceCount
  | .rule _ _ (some (.pop (some target))) _ => target.inPlaceCount
  | _ => 0

def inPlaceCountAll : List Entry → Nat
  | [] => 0
  | e :: rest => e.inPlaceCount + inPlaceCountAll rest

end

/-! ### References -/

/-- An entry whose contexts are numbers. -/
inductive ResolvedEntry where
  | rule (r : Rule)
  | splice (context : Nat)

structure ResolvedContext where
  name : String
  scope : Option String
  entries : List ResolvedEntry

/-- The number of a named context. -/
def lookupContext (names : List String) (context reference : String) : Except BuildError Nat :=
  match names.idxOf? reference with
  | some index => .ok index
  | none => .error (.unknownContext context reference)

/-- The number that a reference stands for. A context written in place takes the number `next`
and a name made of it, and is returned to be resolved later. -/
def resolveRef (names : List String) (context : String) (next : Nat) :
    ContextRef → Except BuildError (Nat × List ContextDef)
  | .named name => do return (← lookupContext names context name, [])
  | .inPlace scope entries => .ok (next, [⟨context ++ "#" ++ next.repr, scope, entries⟩])

def resolveAction (names : List String) (context : String) (next : Nat) :
    StackAction ContextRef → Except BuildError (StackAction Nat × List ContextDef)
  | .push target => do
    let (id, found) ← resolveRef names context next target
    return (.push id, found)
  | .pop none => .ok (.pop none, [])
  | .pop (some target) => do
    let (id, found) ← resolveRef names context next target
    return (.pop (some id), found)
  | .pushScopes scopes => .ok (.pushScopes scopes, [])
  | .popScopes scopes => .ok (.popScopes scopes, [])

/-- Resolves one entry. Unknown contexts are noticed before bad patterns, and those before a
wrong number of scopes. -/
def resolveEntry (names : List String) (context : String) (next : Nat) :
    Entry → Except BuildError (ResolvedEntry × List ContextDef)
  | .splice target => do return (.splice (← lookupContext names context target), [])
  | .rule source scopes action snapshot => do
    let (action, found) ← match action with
      | none => pure (none, [])
      | some action => do
        let (action, found) ← resolveAction names context next action
        pure (some action, found)
    match Pattern.compile? source with
    | none => .error (.invalidPattern context source)
    | some pattern =>
      if pattern.groups + 1 ≠ scopes.length then
        .error (.scopeCount context source pattern.groups scopes.length)
      else
        return (.rule ⟨source, pattern, scopes.map scopeOf, action, snapshot⟩, found)

/-- Resolves entries from the first to the last. -/
def resolveEntries (names : List String) (context : String) :
    Nat → List Entry → Except BuildError (List ResolvedEntry × List ContextDef)
  | _, [] => .ok ([], [])
  | next, e :: rest => do
    let (entry, found) ← resolveEntry names context next e
    let (entries, more) ← resolveEntries names context (next + found.length) rest
    return (entry :: entries, found ++ more)

/-- Resolves the contexts of a queue, to whose end the contexts found on the way are added. At
most `bound` contexts are resolved, and `next` is the first free number. -/
def resolveQueue (names : List String) :
    Nat → Nat → List ContextDef → Except BuildError (List ResolvedContext)
  | _, _, [] => .ok []
  | 0, _, _ :: _ => .ok []
  | bound + 1, next, c :: queue => do
    let (entries, found) ← resolveEntries names c.name next c.entries
    let rest ← resolveQueue names bound (next + found.length) (queue ++ found)
    return ⟨c.name, scopeOf c.scope, entries⟩ :: rest

/-! ### Splices -/

/-- The rules of the contexts that are done, with all spliced rules copied in. -/
abbrev RuleTable := List (Option (List Rule))

/-- The rules of a context; none if it is not done. -/
def rulesOf (done : RuleTable) (index : Nat) : List Rule := done[index]?.join.getD []

/-- Puts the rules of an entry behind those in front of it. `collect` sees to it that a context is
done. -/
def collectEntry (collect : Nat → RuleTable → Except BuildError RuleTable) :
    List Rule × RuleTable → ResolvedEntry → Except BuildError (List Rule × RuleTable)
  | (rules, done), .rule r => .ok (rules ++ [r], done)
  | (rules, done), .splice target => do
    let done ← collect target done
    return (rules ++ rulesOf done target, done)

/-- Collects the rules of a context, unless it is done. `pending` holds the contexts whose rules are
being collected; to meet one of these again is a cycle. It is also a cycle if more than `bound`
contexts would follow, `bound` being the number of contexts not pending. -/
def collectRules (contexts : List ResolvedContext) :
    Nat → List Nat → Nat → RuleTable → Except BuildError RuleTable
  | bound, pending, index, done =>
    match contexts[index]? with
    | none => .ok done
    | some c =>
      if done[index]?.join.isSome then .ok done
      else if pending.contains index then .error (.spliceCycle c.name)
      else
        match bound with
        | 0 => .error (.spliceCycle c.name)
        | bound + 1 => do
          let (rules, done) ←
            c.entries.foldlM (collectEntry (collectRules contexts bound (index :: pending)))
              ([], done)
          return done.set index (some rules)

/-- Collects the rules of all contexts, one context after another. -/
def collectAll (contexts : List ResolvedContext) : Except BuildError RuleTable :=
  (List.range contexts.length).foldlM
    (fun done index => collectRules contexts contexts.length [] index done)
    (List.replicate contexts.length none)

/-! ### Building -/

/-- The first name that occurs a second time. -/
def firstRepeated : List String → List String → Option String
  | _, [] => none
  | seen, name :: rest => if seen.contains name then some name else firstRepeated (name :: seen) rest

/-- Makes a grammar runnable. -/
def build (contexts : List ContextDef) (invalidScope : Option String) :
    Except BuildError Grammar := do
  let names := contexts.map (·.name)
  match firstRepeated [] names with
  | some name => .error (.duplicateContext name)
  | none =>
    match names.idxOf? mainName with
    | none => .error .missingMain
    | some main =>
      let inPlace := (contexts.map fun c => inPlaceCountAll c.entries).foldr (· + ·) 0
      let bound := contexts.length + inPlace
      let resolved ← resolveQueue names bound contexts.length contexts
      let done ← collectAll resolved
      let contexts := resolved.mapIdx fun index c => ⟨c.name, c.scope, rulesOf done index⟩
      return ⟨contexts, main, invalidScope.getD defaultInvalidScope⟩

/-- Whether every rule has one scope more than groups. -/
def hasScopeCounts (g : Grammar) : Bool :=
  g.contexts.all fun c => c.rules.all fun r => r.pattern.groups + 1 == r.scopes.length

end HdlIndex.Grammar
