import HdlIndex.Proofs.Outline.Rules
import HdlIndex.Proofs.Outline.Stretches

/-! Open scopes. Whatever a rule opens it closes, so the scopes that are open behind it are those that
were open in front of it. Between the opening and the closing of a container the innermost scope is
that of the container, except inside the containers in it. Main statement: every rule ends with the
scopes open that it found open, and a container that is closed holds the symbols that were declared
in it and in no container in it, each in the place of the one with its key. -/

namespace HdlIndex

namespace Act

/-- What acts declare in the scope that they are done in. -/
def declared (acts : List Act) : List Symbol :=
  acts.filterMap fun
    | declare symbol => some symbol
    | _ => none

/-- A scope holds what was declared in it. The path is that of everything declared inside. -/
theorem symbols_applyAll (path : List String) (acts : List Act) (c : Contents) :
    (applyAll path acts c).symbols = (declared acts).foldl
      (fun symbols s => Symbol.upsert symbols { s with containerPath := path }) c.symbols := by
  induction acts generalizing c with
  | nil => rfl
  | cons a acts ih =>
    rw [applyAll, ih]
    cases a <;> rfl

end Act

namespace Reading

/-- Whether a rule ends with the scopes open that were open at its start. -/
def Restores (rule : Reading → Reading) : Prop :=
  ∀ r : Reading, r.scopes ≠ [] → (rule r).scopes = r.scopes

/-- Whether a rule does so if it applies. -/
def RestoresIf (rule : Reading → Option Reading) : Prop :=
  ∀ r s : Reading, rule r = some s → r.scopes ≠ [] → s.scopes = r.scopes

variable {doc : Document} {r s u : Reading}

theorem Agrees.refl (h : r.scopes ≠ []) : Agrees r r := ⟨rfl, rfl, rfl, rfl, h, h⟩

theorem Uniform.restores {rule : Reading → Reading} (h : Uniform rule) : Restores rule := by
  intro r hr
  obtain ⟨-, acts, hdoes, -⟩ := h r r (.refl hr)
  exact hdoes.scopes

theorem UniformIf.restores {rule : Reading → Option Reading} (h : UniformIf rule) :
    RestoresIf rule := by
  intro r s hs hr
  have hrel := h r r (.refl hr)
  rw [hs] at hrel
  cases hrel with
  | some hstep =>
    obtain ⟨-, acts, hdoes, -⟩ := hstep
    exact hdoes.scopes

theorem UniformWith.restores {α : Type} {rule : Reading → α × Reading} (h : UniformWith rule) :
    Restores fun r => (rule r).2 := by
  intro r hr
  obtain ⟨-, -, acts, hdoes, -⟩ := h r r (.refl hr)
  exact hdoes.scopes

/-- Whether the innermost open scope is the one of a tree that a node stands for. -/
structure StandsIn (r : Reading) (around : Surroundings) (n : Node) : Prop where
  inScope : r.scopes ≠ []
  scope : r.scope = n.id
  sound : r.table.Sound
  root : r.table.root = around.fill n

variable {around : Surroundings} {n : Node} {front : Cursor} {acts : List Act}

/-- A stretch stays in its scope, and what it declares lands there. -/
theorem StandsIn.stretch (h : r.StandsIn around n) (hs : Stretch doc front r acts s) :
    ∃ m, s.StandsIn around m ∧ m.contents = Act.applyAll n.scope.path acts n.contents := by
  obtain ⟨hscopes, htable⟩ := hs.scopes_table h.inScope
  obtain ⟨hsound, m, hroot, hid, -, -, hcontents⟩ := Act.holds_performAll acts h.sound h.root
  rw [← h.scope, ← htable] at hsound hroot
  refine ⟨m, ⟨hscopes ▸ h.inScope, ?_, hsound, hroot⟩, hcontents⟩
  rw [scope_eq hscopes, h.scope, hid]

/-- The file scope is the root of the table. -/
theorem standsIn_root (hscopes : r.scopes = [SymbolTable.rootId]) (hsound : r.table.Sound) :
    r.StandsIn [] r.table.root where
  inScope := by simp [hscopes]
  scope := by rw [scope, hscopes, List.headD_cons, hsound.root_id]
  sound := hsound
  root := rfl

/-- A container that is opened is an empty scope in the one around it. -/
theorem StandsIn.enter (h : r.StandsIn around n) (symbol : Symbol) :
    ∃ frame child, (r.enter symbol).StandsIn (frame :: around) child ∧ child.contents = {} ∧
      child.scope.path = n.scope.path ++ [symbol.name] := by
  obtain ⟨before, child, after, previous, hsound, hid, hroot, hscope, hempty, -⟩ :=
    (h.sound.openContainer_opened h.root symbol).sound h.sound h.root rfl
  rw [← h.scope] at hsound hid hroot
  refine ⟨⟨r.scope, n.scope, before, after, previous, false⟩, child,
    ⟨List.cons_ne_nil _ _, hid.symm, hsound, hroot⟩, ?_, ?_⟩
  · rw [Node.contents, hscope, hempty]
    rfl
  · rw [hscope]
    rfl

/-- A container is opened, read and closed in the scope around it. -/
theorem StandsIn.container (h : r.StandsIn around n) {symbol : Symbol} (start : Nat)
    (hs : Stretch doc front (r.enter symbol) acts u) :
    ∃ m, (u.leave doc start).StandsIn around m ∧
      m.contents = (Act.container symbol acts
        (doc.origins.definition start u.cursor.stop)).apply n.scope.path n.contents := by
  obtain ⟨hscopes, htable⟩ := hs.scopes_table (List.cons_ne_nil _ _)
  have hleave := leave_eq doc start hscopes h.inScope
  have hperform : (u.leave doc start).table = (Act.container symbol acts
      (doc.origins.definition start u.cursor.stop)).perform r.scope r.table := by
    rw [hleave]
    dsimp only
    rw [htable]
    rfl
  obtain ⟨hsound, m, hroot, hid, -, -, hcontents⟩ := Act.holds_perform
    (.container symbol acts (doc.origins.definition start u.cursor.stop)) h.sound h.root
  rw [← h.scope, ← hperform] at hsound hroot
  have hscopes' : (u.leave doc start).scopes = r.scopes := by rw [hleave]
  refine ⟨m, ⟨hscopes' ▸ h.inScope, ?_, hsound, hroot⟩, hcontents⟩
  rw [scope_eq hscopes', h.scope, hid]

/-- What it is to keep to the scopes. -/
structure KeepsScopes (doc : Document) : Prop where
  itemOrSkip : Restores (Reading.item doc)
  item : RestoresIf (itemWith? doc (Reading.item doc))
  itemsUntil : ∀ closing, Restores (itemsUntil (Reading.item doc) closing)
  dataType : Restores fun r => (r.dataType doc).2
  dataDeclaration : RestoresIf (dataDeclaration? doc)
  typeAlias : Restores (typeAlias doc)
  routine : ∀ start, Restores (routine doc start (routineBody doc))
  prototype : ∀ start, Restores (Reading.routine doc start id)
  container : ∀ start prototype, Restores (container doc (Reading.item doc) start prototype)
  packageContainer : Restores (packageContainer doc (Reading.item doc))
  generateBlock : Restores (generateBlock doc (Reading.item doc))
  generateBody : Restores (generateBody doc (Reading.item doc))
  generateIf : Restores (generateIf doc (Reading.item doc))
  generateFor : Restores (generateFor doc (Reading.item doc))
  caseItem : Restores (caseItem doc (Reading.item doc))
  generateCase : Restores (generateCase doc (Reading.item doc))
  /-- At the end of a document only the file scope is open. -/
  run : ∀ r : Reading, r.scopes = [SymbolTable.rootId] →
    (r.run doc).scopes = [SymbolTable.rootId]
  /-- The reading of a document is a stretch. -/
  stretch : ∀ r : Reading, ∃ acts, Stretch doc r.cursor r acts (r.run doc)
  /-- Behind a stretch in a container, a declaration goes to the container. -/
  declares : ∀ {r s : Reading} {symbol : Symbol} {front : Cursor} {acts : List Act},
    Stretch doc front (r.enter symbol) acts s → ∀ name kind start,
      (s.declare doc name kind start).table =
        (s.table.addSymbol (r.table.openContainer r.scope symbol).2
          (doc.symbol name kind start s.cursor.stop)).1
  /-- At the start of a document the file scope is the root of the table. -/
  starts : ∀ r : Reading, r.scopes = [SymbolTable.rootId] → r.table.Sound →
    r.StandsIn [] r.table.root
  /-- A container that is opened is an empty scope in the one around it. -/
  enters : ∀ {r : Reading} {around : Surroundings} {n : Node}, r.StandsIn around n →
    ∀ symbol : Symbol, ∃ frame child, (r.enter symbol).StandsIn (frame :: around) child ∧
      child.contents = {} ∧ child.scope.path = n.scope.path ++ [symbol.name]
  /-- A stretch stays in the scope that it starts in. -/
  stays : ∀ {r s : Reading} {around : Surroundings} {n : Node} {front : Cursor} {acts : List Act},
    r.StandsIn around n → Stretch doc front r acts s →
      ∃ m, s.StandsIn around m ∧ m.contents = Act.applyAll n.scope.path acts n.contents
  /-- A container that is closed holds what was declared in it, and the scope around it holds the
  container. -/
  lands : ∀ {r u : Reading} {around : Surroundings} {n : Node} {symbol : Symbol} {front : Cursor}
    {acts : List Act} (start : Nat), r.StandsIn around n →
    Stretch doc front (r.enter symbol) acts u →
      ∃ (m : Node) (inner : Contents), (u.leave doc start).StandsIn around m ∧
        inner.symbols = (Act.declared acts).foldl (fun symbols s =>
          Symbol.upsert symbols { s with containerPath := n.scope.path ++ [symbol.name] }) [] ∧
        m.contents = { n.contents with
          containers := (inner.toContainer { symbol with
            containerPath := n.scope.path
            definition := doc.origins.definition start u.cursor.stop }).put n.contents.containers }

open Twin in
/-- The rules keep to the scopes, in every document and from every reading in which a scope is
open. -/
theorem keepsScopes (doc : Document) : KeepsScopes doc where
  itemOrSkip := match_item.uniform.restores
  item := (match_itemWith? match_item).uniformIf.restores
  itemsUntil := fun closing => (match_itemsUntil match_item closing).uniform.restores
  dataType := (match_dataType.uniformWith fun _ _ h => h.eq trivial).restores
  dataDeclaration := match_dataDeclaration?.uniformIf.restores
  typeAlias := match_typeAlias.uniform.restores
  routine := fun start => (match_routine start match_routineBody).uniform.restores
  prototype := fun start => (match_routine start match_id).uniform.restores
  container := fun start prototype => (match_container match_item start prototype).uniform.restores
  packageContainer := (match_packageContainer match_item).uniform.restores
  generateBlock := (match_generateBlock match_item).uniform.restores
  generateBody := (match_generateBody match_item).uniform.restores
  generateIf := (match_generateIf match_item).uniform.restores
  generateFor := (match_generateFor match_item).uniform.restores
  caseItem := (match_caseItem match_item).uniform.restores
  generateCase := (match_generateCase match_item).uniform.restores
  run := by
    intro r hr
    have hrun : Restores (Reading.run doc) := match_run.uniform.restores
    rw [hrun r (by simp [hr]), hr]
  stretch := fun r => (leads_run r).stretch
  declares := by
    intro r s symbol front acts hs name kind start
    have hscopes := (hs.scopes_table (List.cons_ne_nil _ _)).1
    rw [declare, scope, hscopes]
    rfl
  starts := fun _ => standsIn_root
  enters := fun h => h.enter
  stays := fun h hs => h.stretch hs
  lands := by
    intro r u around n symbol front acts start h hs
    obtain ⟨m, hm, hcontents⟩ := h.container start hs
    exact ⟨m, _, hm, Act.symbols_applyAll _ acts {}, hcontents⟩

end Reading

end HdlIndex
