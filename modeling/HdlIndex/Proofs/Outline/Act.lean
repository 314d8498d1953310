import HdlIndex.Proofs.Symbol.Soundness

/-! What a reading can do to a table: declare, import and export names in the scope it stands in,
and read a container, which is to do such things in the scope of the container. Acts also have a
meaning without numbers, as changes of what a scope holds. Main statement: in a sound table, acts in
a scope of the tree change what this scope holds as they mean, whatever else there is in the table,
and nothing around the scope. -/

namespace HdlIndex

/-- Something done in the scope that a reading stands in. -/
inductive Act where
  | declare (symbol : Symbol)
  | importing (name : String)
  | exporting (name : String)
  /-- A body without a name is counted. -/
  | countAnonymous
  /-- A container is opened, acts are done in it, and its extent is noted. -/
  | container (symbol : Symbol) (acts : List Act) (definition : Definition)

namespace Act

mutual

/-- Does an act in the scope with a number. -/
def perform (id : Nat) : Act → SymbolTable → SymbolTable
  | declare symbol, t => (t.addSymbol id symbol).1
  | importing name, t => t.addImport id name
  | exporting name, t => t.addExport id name
  | countAnonymous, t => { t with anonymous := t.anonymous + 1 }
  | container symbol acts definition, t =>
    let (t, inner) := t.openContainer id symbol
    (performAll inner acts t).setDefinition inner definition

def performAll (id : Nat) : List Act → SymbolTable → SymbolTable
  | [], t => t
  | a :: acts, t => performAll id acts (a.perform id t)

end

theorem performAll_append (id : Nat) (a b : List Act) (t : SymbolTable) :
    performAll id (a ++ b) t = performAll id b (performAll id a t) := by
  induction a generalizing t with
  | nil => rfl
  | cons act a ih => exact ih (act.perform id t)

mutual

/-- How often bodies without a name are counted. -/
def anonymousCount : Act → Nat
  | countAnonymous => 1
  | container _ acts _ => anonymousCountAll acts
  | _ => 0

def anonymousCountAll : List Act → Nat
  | [] => 0
  | a :: acts => a.anonymousCount + anonymousCountAll acts

end

mutual

/-- Whether everything that an act declares has an extent, which is not the case if it is made of
no segment at all. -/
def HasExtent : Act → Prop
  | declare symbol => symbol.definition ≠ .multi []
  | container _ acts definition => definition ≠ .multi [] ∧ HaveExtent acts
  | _ => True

def HaveExtent : List Act → Prop
  | [] => True
  | a :: acts => a.HasExtent ∧ HaveExtent acts

end

theorem haveExtent_append {a b : List Act} (ha : HaveExtent a) (hb : HaveExtent b) :
    HaveExtent (a ++ b) := by
  induction a with
  | nil => exact hb
  | cons act a ih => exact ⟨ha.1, ih ha.2⟩

mutual

/-- Whether an act opens scopes for symbols of those kinds only that have one, and declares symbols of
the other kinds only as leaves. -/
def RespectsKinds : Act → Prop
  | declare symbol => symbol.kind.isContainer = false
  | container symbol acts _ => symbol.kind.isContainer = true ∧ RespectKinds acts
  | _ => True

def RespectKinds : List Act → Prop
  | [] => True
  | a :: acts => a.RespectsKinds ∧ RespectKinds acts

end

theorem respectKinds_append {a b : List Act} (ha : RespectKinds a) (hb : RespectKinds b) :
    RespectKinds (a ++ b) := by
  induction a with
  | nil => exact hb
  | cons act a ih => exact ⟨ha.1, ih ha.2⟩

end Act

/-! ### Contents -/

/-- What a scope holds, without numbers. -/
structure Contents where
  symbols : List Symbol := []
  imports : List String := []
  exports : List String := []
  containers : List Container := []

/-- The container of a symbol that holds something. -/
def Contents.toContainer (c : Contents) (symbol : Symbol) : Container :=
  ⟨symbol, c.symbols, c.imports, c.exports, c.containers⟩

/-- Puts a container in the place of the one that is the same declaration, or at the end. -/
def Container.put (c : Container) : List Container → List Container
  | [] => [c]
  | d :: rest => if d.symbol.sameKey c.symbol then c :: rest else d :: c.put rest

namespace Act

mutual

/-- What a scope holds behind an act in it. The path is that of everything declared inside. -/
def apply (path : List String) : Act → Contents → Contents
  | declare symbol, c =>
    { c with symbols := Symbol.upsert c.symbols { symbol with containerPath := path } }
  | importing name, c => { c with imports := Scope.addOnce c.imports name }
  | exporting name, c => { c with exports := Scope.addOnce c.exports name }
  | countAnonymous, c => c
  | container symbol acts definition, c =>
    let inner := applyAll (path ++ [symbol.name]) acts {}
    let symbol := { symbol with containerPath := path, definition := definition }
    { c with containers := (inner.toContainer symbol).put c.containers }

def applyAll (path : List String) : List Act → Contents → Contents
  | [], c => c
  | a :: acts, c => applyAll path acts (a.apply path c)

end

end Act

namespace Node

/-- What a scope of the tree holds. -/
def contents (n : Node) : Contents :=
  ⟨n.scope.symbols, n.scope.imports, n.scope.exports, containersOf n.children⟩

theorem toContainer?_eq (n : Node) :
    n.toContainer? = n.scope.symbol.map n.contents.toContainer := by
  obtain ⟨id, scope, children, previous⟩ := n
  rfl

/-- Containers of other keys are passed over. -/
theorem put_containersOf {before : List Node} {c : Container}
    (h : ∀ b ∈ before, b.scope.isFor c.symbol = false) (rest : List Container) :
    c.put (containersOf before ++ rest) = containersOf before ++ c.put rest := by
  induction before with
  | nil => rfl
  | cons b before ih =>
    have ih := ih fun d hd => h d (List.mem_cons_of_mem _ hd)
    have hb := h b List.mem_cons_self
    rw [containersOf, toContainer?_eq]
    rcases hs : b.scope.symbol with _ | s
    · exact ih
    · rw [Scope.isFor, hs, Option.any_some] at hb
      show (if s.sameKey c.symbol then _ else _) = _
      rw [hb]
      exact congrArg (b.contents.toContainer s :: ·) ih

end Node

namespace SymbolTable

theorem anonymous_update (t : SymbolTable) (id : Nat) (f : Scope → Scope) :
    (t.update id f).anonymous = t.anonymous := by
  unfold update
  split <;> rfl

theorem anonymous_openContainer (t : SymbolTable) (id : Nat) (symbol : Symbol) :
    (t.openContainer id symbol).1.anonymous = t.anonymous := by
  have htake : t.takeId.anonymous = t.anonymous := by
    unfold takeId
    cases t.free <;> rfl
  unfold openContainer
  split
  · unfold openIn
    split
    · rfl
    · rfl
    · exact htake
  · unfold openInStray
    dsimp only
    split
    · rfl
    · rfl
    · exact htake

end SymbolTable

namespace Act

mutual

/-- Only bodies without a name are counted. -/
theorem anonymous_perform (a : Act) (id : Nat) (t : SymbolTable) :
    (a.perform id t).anonymous = t.anonymous + a.anonymousCount := by
  match a with
  | .declare symbol => exact t.anonymous_update id _
  | .importing name => exact t.anonymous_update id _
  | .exporting name => exact t.anonymous_update id _
  | .countAnonymous => rfl
  | .container symbol acts definition =>
    have hopen := t.anonymous_openContainer id symbol
    simp only [Act.perform, SymbolTable.setDefinition, SymbolTable.anonymous_update,
      Act.anonymousCount]
    rw [anonymous_performAll acts, hopen]

theorem anonymous_performAll (acts : List Act) (id : Nat) (t : SymbolTable) :
    (performAll id acts t).anonymous = t.anonymous + anonymousCountAll acts := by
  match acts with
  | [] => rfl
  | a :: acts =>
    rw [Act.performAll, anonymous_performAll acts, anonymous_perform a, Act.anonymousCountAll]
    omega

end

end Act

/-! ### Acts in a sound table -/

/-- Whether a table is sound and has a scope in given surroundings that stands for the same
container as `n` and holds the given contents. -/
def SymbolTable.Holds (t : SymbolTable) (around : Surroundings) (n : Node) (c : Contents) : Prop :=
  t.Sound ∧ ∃ m, t.root = around.fill m ∧ m.id = n.id ∧ m.scope.symbol = n.scope.symbol ∧
    m.scope.path = n.scope.path ∧ m.contents = c

namespace Act

/-- To change what is declared in a scope apart from containers changes its contents so. -/
theorem holds_update {t : SymbolTable} {around : Surroundings} {n : Node} (h : t.Sound)
    (hr : t.root = around.fill n) {f : Scope → Scope}
    (hsymbol : (f n.scope).symbol = n.scope.symbol) (hpath : (f n.scope).path = n.scope.path) :
    (t.update n.id f).Holds around n
      ⟨(f n.scope).symbols, (f n.scope).imports, (f n.scope).exports,
        Node.containersOf n.children⟩ := by
  refine ⟨h.update hr (.of_eq hpath hsymbol), { n with scope := f n.scope }, ?_, rfl, hsymbol,
    hpath, rfl⟩
  rw [h.update_focus hr]

/-- A container takes the place of the one of its key, or stands at the end. -/
theorem put_opened {n child : Node} {before after : List Node} {symbol : Symbol}
    {definition : Definition}
    (hchild : child.scope.symbol = some { symbol with definition })
    (hbefore : ∀ b ∈ before, b.scope.isFor symbol = false)
    (hplace : (∃ c, n.children = before ++ c :: after ∧ c.scope.isFor symbol) ∨
      n.children = before ∧ after = []) :
    Node.containersOf (before ++ child :: after) =
      (child.contents.toContainer { symbol with definition }).put
        (Node.containersOf n.children) := by
  have hnew : child.toContainer?.toList =
      [child.contents.toContainer { symbol with definition }] := by
    rw [child.toContainer?_eq, hchild]
    rfl
  rw [Node.containersOf_append, Node.containersOf, hnew]
  rcases hplace with ⟨c, hc, hfor⟩ | ⟨hc, rfl⟩
  · rw [hc, Node.containersOf_append, Node.put_containersOf hbefore, Node.containersOf,
      c.toContainer?_eq]
    rcases hs : c.scope.symbol with _ | old
    · simp [Scope.isFor, hs] at hfor
    · rw [Scope.isFor, hs, Option.any_some] at hfor
      show _ = _ ++ (if old.sameKey symbol then _ else _)
      rw [if_pos hfor]
      rfl
  · have hput := Node.put_containersOf
      (c := child.contents.toContainer { symbol with definition }) hbefore []
    rw [List.append_nil] at hput
    rw [hc, hput]
    rfl

/-- A container whose scope is filled after it was opened is put among the others. -/
theorem holds_container {t : SymbolTable} {around : Surroundings} {n : Node} (h : t.Sound)
    (hr : t.root = around.fill n) (symbol : Symbol) (definition : Definition) {inner : Contents}
    {t' : SymbolTable}
    (hin : ∀ frame child, child.scope = .ofSymbol (n.scope.located symbol) →
      child.children = [] → child.id = (t.openContainer n.id symbol).2 →
      (t.openContainer n.id symbol).1.Sound →
      (t.openContainer n.id symbol).1.root = Surroundings.fill (frame :: around) child →
      t'.Holds (frame :: around) child inner) :
    (t'.setDefinition (t.openContainer n.id symbol).2 definition).Holds around n
      { n.contents with
        containers := (inner.toContainer { n.scope.located symbol with definition }).put
          n.contents.containers } := by
  obtain ⟨before, child, after, previous, hsound, hid, hroot, hscope, hempty, hbefore, hplace⟩ :=
    (h.openContainer_opened hr symbol).sound h hr rfl
  let frame : Frame := ⟨n.id, n.scope, before, after, previous, false⟩
  obtain ⟨hsound', m, hm, hmid, hmsymbol, -, hmcontents⟩ :=
    hin frame child hscope hempty hid hsound hroot
  have hnumber : (t.openContainer n.id symbol).2 = m.id := hid.symm.trans hmid.symm
  have hdefined : (m.scope.setDefinition definition).symbol =
      some { n.scope.located symbol with definition } := by
    rw [Scope.setDefinition, hmsymbol, hscope]
    rfl
  rw [SymbolTable.setDefinition, hnumber]
  refine ⟨hsound'.update hm (m.scope.replaces_setDefinition definition),
    frame.fill { m with scope := m.scope.setDefinition definition }, ?_, rfl, rfl, rfl, ?_⟩
  · rw [hsound'.update_focus hm]
    rfl
  · rw [← hmcontents]
    exact congrArg (Contents.mk _ _ _) (put_opened hdefined hbefore hplace)

mutual

/-- An act in a scope does there what it means. -/
theorem holds_perform (a : Act) {t : SymbolTable} {around : Surroundings} {n : Node}
    (h : t.Sound) (hr : t.root = around.fill n) :
    (a.perform n.id t).Holds around n (a.apply n.scope.path n.contents) := by
  match a with
  | .declare symbol => exact holds_update h hr rfl rfl
  | .importing name => exact holds_update h hr rfl rfl
  | .exporting name => exact holds_update h hr rfl rfl
  | .countAnonymous =>
    exact ⟨⟨h.numbers, h.root_id, h.root_path, h.tree⟩, n, hr, rfl, rfl, rfl, rfl⟩
  | .container symbol acts definition =>
    refine holds_container h hr symbol definition ?_
    intro frame child hscope hempty hid hsound hroot
    have hacts := holds_performAll acts hsound hroot
    have hcontents : child.contents = {} := by
      rw [Node.contents, hscope, hempty]
      rfl
    rw [hid, hcontents, hscope] at hacts
    exact hacts

theorem holds_performAll (acts : List Act) {t : SymbolTable} {around : Surroundings} {n : Node}
    (h : t.Sound) (hr : t.root = around.fill n) :
    (performAll n.id acts t).Holds around n (applyAll n.scope.path acts n.contents) := by
  match acts with
  | [] => exact ⟨h, n, hr, rfl, rfl, rfl, rfl⟩
  | a :: acts =>
    obtain ⟨hs, m, hm, hid, hsymbol, hpath, hcontents⟩ := holds_perform a h hr
    obtain ⟨hs', m', hm', hid', hsymbol', hpath', hcontents'⟩ := holds_performAll acts hs hm
    rw [hid] at hs' hm'
    rw [hcontents, hpath] at hcontents'
    exact ⟨hs', m', hm', hid'.trans hid, hsymbol'.trans hsymbol, hpath'.trans hpath, hcontents'⟩

end

end Act

end HdlIndex
