import HdlIndex.Proofs.Outline.Independence
import HdlIndex.Proofs.Symbol.Codec
import HdlIndex.Proofs.Symbol.Distinct

/-! Restored tables hold what was stored. A table is restored by declaring again, scope by scope,
what a file declared, and a declaration takes the place of the one with its key. Main statement:
symbols with the right paths, of which no two in a scope have the same key, come back from the table
that they are restored into. -/

namespace HdlIndex

namespace Container

mutual

/-- Whether no name and no declaration stands twice in the scope of a container, or below. -/
def Distinct : Container → Prop
  | ⟨_, symbols, imports, exports, containers⟩ =>
    (symbols.map Symbol.key).Nodup ∧ imports.Nodup ∧ exports.Nodup ∧ DistinctAll containers

def DistinctAll : List Container → Prop
  | [] => True
  | c :: rest => (∀ d ∈ rest, d.symbol.key ≠ c.symbol.key) ∧ c.Distinct ∧ DistinctAll rest

end

/-- A container whose key is new goes to the end. -/
theorem put_of_new {c : Container} {cs : List Container}
    (h : ∀ d ∈ cs, d.symbol.key ≠ c.symbol.key) : c.put cs = cs ++ [c] := by
  induction cs with
  | nil => rfl
  | cons d rest ih =>
    have hd : d.symbol.sameKey c.symbol = false := by
      rw [Bool.eq_false_iff, ne_eq, Symbol.sameKey_iff]
      exact h d List.mem_cons_self
    rw [put, hd, ih fun e he => h e (List.mem_cons_of_mem _ he)]
    rfl

end Container

/-- Whether no name and no declaration stands twice in a scope of a file. -/
structure FileSymbols.Distinct (file : FileSymbols) : Prop where
  symbols : (file.symbols.map Symbol.key).Nodup
  imports : file.imports.Nodup
  exports : file.exports.Nodup
  containers : Container.DistinctAll file.containers

/-! ### Scopes without containers -/

/-- A symbol whose key is new goes to the end. -/
theorem Symbol.upsert_of_new {symbols : List Symbol} {s : Symbol}
    (h : ∀ old ∈ symbols, old.key ≠ s.key) : upsert symbols s = symbols ++ [s] := by
  have hnone : symbols.findIdx? (·.sameKey s) = none := by
    rw [List.findIdx?_eq_none_iff]
    intro old hold
    rw [Bool.eq_false_iff, ne_eq, sameKey_iff]
    exact h old hold
  rw [upsert, hnone]

namespace Act

theorem applyAll_append (path : List String) (a b : List Act) (c : Contents) :
    applyAll path (a ++ b) c = applyAll path b (applyAll path a c) := by
  induction a generalizing c with
  | nil => rfl
  | cons act a ih => exact ih (act.apply path c)

theorem applyAll_declare {path : List String} {symbols : List Symbol} (c : Contents)
    (hpath : ∀ s ∈ symbols, s.containerPath = path)
    (hkeys : ((c.symbols ++ symbols).map Symbol.key).Nodup) :
    applyAll path (symbols.map .declare) c = { c with symbols := c.symbols ++ symbols } := by
  induction symbols generalizing c with
  | nil => simp [applyAll]
  | cons s symbols ih =>
    have hs : ({ s with containerPath := path } : Symbol) = s := by
      rw [← hpath s List.mem_cons_self]
    have hnew : ∀ old ∈ c.symbols, old.key ≠ s.key := by
      intro old hold
      rw [List.map_append] at hkeys
      exact (List.nodup_append.1 hkeys).2.2 _ (List.mem_map_of_mem hold) _ List.mem_cons_self
    have hstep : apply path (.declare s) c = { c with symbols := c.symbols ++ [s] } := by
      rw [apply, hs, Symbol.upsert_of_new hnew]
    rw [List.map_cons, applyAll, hstep, ih]
    · simp
    · exact fun t ht => hpath t (List.mem_cons_of_mem _ ht)
    · simpa using hkeys

theorem addOnce_of_not_mem {names : List String} {name : String} (h : name ∉ names) :
    Scope.addOnce names name = names ++ [name] := by
  simp [Scope.addOnce, h]

/-- New names are added to the end of a row of names, be they imported or exported. -/
theorem applyAll_names {path : List String} (act : String → Act) (row : Contents → List String)
    (put : List String → Contents → Contents)
    (hact : ∀ name c, apply path (act name) c = put (Scope.addOnce (row c) name) c)
    (hrow : ∀ names c, row (put names c) = names)
    (hput : ∀ names old c, put names (put old c) = put names c) (hsame : ∀ c, put (row c) c = c)
    {names : List String} (c : Contents) (h : (row c ++ names).Nodup) :
    applyAll path (names.map act) c = put (row c ++ names) c := by
  induction names generalizing c with
  | nil => rw [List.append_nil, hsame, List.map_nil, applyAll]
  | cons name names ih =>
    have hnew : name ∉ row c := fun hmem =>
      (List.nodup_append.1 h).2.2 name hmem name List.mem_cons_self rfl
    have hnext : row (put (row c ++ [name]) c) ++ names = row c ++ name :: names := by
      rw [hrow, List.append_assoc]
      rfl
    rw [List.map_cons, applyAll, hact, addOnce_of_not_mem hnew, ih _ (by rwa [hnext]), hnext, hput]

/-- What a scope without containers holds is added to an empty one. -/
theorem applyAll_leaves {path : List String} {symbols : List Symbol} {imports exports : List String}
    (hpath : ∀ s ∈ symbols, s.containerPath = path) (hsymbols : (symbols.map Symbol.key).Nodup)
    (himports : imports.Nodup) (hexports : exports.Nodup) :
    applyAll path (symbols.map .declare ++ imports.map .importing ++ exports.map .exporting) {} =
      ⟨symbols, imports, exports, []⟩ := by
  have hdeclare : applyAll path (symbols.map .declare) {} = { symbols } :=
    applyAll_declare {} hpath hsymbols
  have himport : applyAll path (imports.map .importing) { symbols } = { symbols, imports } :=
    applyAll_names .importing (·.imports) (fun names c => { c with imports := names })
      (fun _ _ => rfl) (fun _ _ => rfl) (fun _ _ _ => rfl) (fun _ => rfl) _ himports
  have hexport : applyAll path (exports.map .exporting) { symbols, imports } =
      { symbols, imports, exports } :=
    applyAll_names .exporting (·.exports) (fun names c => { c with exports := names })
      (fun _ _ => rfl) (fun _ _ => rfl) (fun _ _ _ => rfl) (fun _ => rfl) _ hexports
  rw [applyAll_append, applyAll_append, hdeclare, himport, hexport]

end Act

/-! ### Containers -/

namespace SymbolTable

/-- What a scope holds is told by its number, its container and its path. -/
theorem Holds.congr {t : SymbolTable} {around : Surroundings} {n m : Node} {c : Contents}
    (h : t.Holds around m c) (hid : m.id = n.id) (hsymbol : m.scope.symbol = n.scope.symbol)
    (hpath : m.scope.path = n.scope.path) : t.Holds around n c := by
  obtain ⟨hsound, m', hr, hid', hsymbol', hpath', hcontents⟩ := h
  exact ⟨hsound, m', hr, hid'.trans hid, hsymbol'.trans hsymbol, hpath'.trans hpath, hcontents⟩

/-- A container whose scope is filled after it was opened is put among the others. -/
theorem holds_opened {t : SymbolTable} {around : Surroundings} {n : Node} (h : t.Sound)
    (hr : t.root = around.fill n) (symbol : Symbol) {inner : Contents} {t' : SymbolTable}
    (hin : ∀ frame child, child.scope = .ofSymbol (n.scope.located symbol) →
      child.children = [] → child.id = (t.openContainer n.id symbol).2 →
      (t.openContainer n.id symbol).1.Sound →
      (t.openContainer n.id symbol).1.root = Surroundings.fill (frame :: around) child →
      t'.Holds (frame :: around) child inner) :
    t'.Holds around n
      { n.contents with
        containers := (inner.toContainer (n.scope.located symbol)).put n.contents.containers } := by
  obtain ⟨before, child, after, previous, hsound, hid, hroot, hscope, hempty, hbefore, hplace⟩ :=
    (h.openContainer_opened hr symbol).sound h hr rfl
  let frame : Frame := ⟨n.id, n.scope, before, after, previous, false⟩
  obtain ⟨hsound', m, hm, -, hmsymbol, -, hmcontents⟩ :=
    hin frame child hscope hempty hid hsound hroot
  have hmsymbol : m.scope.symbol = some (n.scope.located symbol) := by
    rw [hmsymbol, hscope]
    rfl
  refine ⟨hsound', frame.fill m, hm, rfl, rfl, rfl, ?_⟩
  rw [← hmcontents]
  exact congrArg (Contents.mk _ _ _) (Act.put_opened hmsymbol hbefore hplace)

mutual

/-- A container is restored behind those that the scope has. -/
theorem holds_restore_new (c : Container) {t : SymbolTable} {around : Surroundings} {n : Node}
    (h : t.Sound) (hr : t.root = around.fill n) (hwritten : c.Written n.scope.path)
    (hdistinct : c.Distinct) (hnew : ∀ d ∈ n.contents.containers, d.symbol.key ≠ c.symbol.key) :
    (restore n.id c t).Holds around n
      { n.contents with containers := n.contents.containers ++ [c] } := by
  match c with
  | ⟨symbol, symbols, imports, exports, containers⟩ =>
    obtain ⟨hsymbol, hsymbols, hcontainers⟩ := hwritten
    obtain ⟨hkeys, himports, hexports, hinner⟩ := hdistinct
    have hlocated : n.scope.located symbol = symbol := by
      rw [Scope.located, ← hsymbol.path]
    have hrestored : (restore n.id ⟨symbol, symbols, imports, exports, containers⟩ t).Holds around n
        { n.contents with
          containers := ((⟨symbols, imports, exports, containers⟩ : Contents).toContainer
            (n.scope.located symbol)).put n.contents.containers } := by
      refine holds_opened h hr symbol ?_
      intro frame child hscope hempty hid hsound hroot
      have hpath : child.scope.path = n.scope.path ++ [symbol.name] := by
        rw [hscope]
        rfl
      have hcontents : child.contents = {} := by
        rw [Node.contents, hscope, hempty]
        rfl
      obtain ⟨hsound₁, m, hm, hmid, hmsymbol, hmpath, hmcontents⟩ := Act.holds_performAll
        (symbols.map .declare ++ imports.map .importing ++ exports.map .exporting) hsound hroot
      rw [hcontents, hpath, Act.applyAll_leaves (fun s hs => (hsymbols s hs).path) hkeys himports
        hexports] at hmcontents
      rw [← hpath, ← hmpath] at hcontainers
      have hrest := holds_restoreAll_new containers hsound₁ hm hcontainers hinner
        (by simp [hmcontents])
      rw [hmcontents, hmid, hid, ← addAll_eq] at hrest
      exact hrest.congr hmid hmsymbol hmpath
    rw [hlocated, Contents.toContainer, Container.put_of_new hnew] at hrestored
    exact hrestored

theorem holds_restoreAll_new (cs : List Container) {t : SymbolTable} {around : Surroundings}
    {n : Node} (h : t.Sound) (hr : t.root = around.fill n)
    (hwritten : Container.WrittenAll n.scope.path cs) (hdistinct : Container.DistinctAll cs)
    (hnew : ∀ d ∈ n.contents.containers, ∀ c ∈ cs, d.symbol.key ≠ c.symbol.key) :
    (restoreAll n.id cs t).Holds around n
      { n.contents with containers := n.contents.containers ++ cs } := by
  match cs with
  | [] => exact ⟨h, n, hr, rfl, rfl, rfl, by simp⟩
  | c :: rest =>
    obtain ⟨hc, hrest⟩ := hwritten
    obtain ⟨hkey, hcdistinct, hrestdistinct⟩ := hdistinct
    obtain ⟨hs, m, hm, hid, hsymbol, hpath, hcontents⟩ := holds_restore_new c h hr hc hcdistinct
      fun d hd => hnew d hd c List.mem_cons_self
    have hall := holds_restoreAll_new rest hs hm (hpath ▸ hrest) hrestdistinct (by
      rw [hcontents]
      intro d hd e he
      rcases List.mem_append.1 hd with hd | hd
      · exact hnew d hd e (List.mem_cons_of_mem _ he)
      · rw [List.mem_singleton.1 hd]
        exact (hkey e he).symm)
    rw [hid, hcontents] at hall
    simp only [List.append_assoc, List.cons_append, List.nil_append] at hall
    exact hall.congr hid hsymbol hpath

end

/-- Symbols with the right paths and without repetitions come back from the table that they are
restored into. -/
theorem toFileSymbols_ofFileSymbols {file : FileSymbols} (hwritten : file.Written)
    (hdistinct : file.Distinct) :
    (ofFileSymbols file).toFileSymbols file.includes = file := by
  have hroot : empty.root = Surroundings.fill [] empty.root := rfl
  obtain ⟨hsound, m, hm, hid, -, hpath, hcontents⟩ := Act.holds_performAll
    (file.symbols.map .declare ++ file.imports.map .importing ++ file.exports.map .exporting)
    sound_empty hroot
  have hempty : empty.root.contents = {} := rfl
  have hnil : empty.root.scope.path = [] := rfl
  rw [hempty, hnil, Act.applyAll_leaves (fun s hs => (hwritten.symbols s hs).path)
    hdistinct.symbols hdistinct.imports hdistinct.exports] at hcontents
  obtain ⟨-, m', hm', -, -, -, hrestored⟩ := holds_restoreAll_new file.containers hsound hm
    (by rw [hpath]; exact hwritten.containers) hdistinct.containers (by simp [hcontents])
  rw [hid, ← addAll_eq] at hm'
  rw [hcontents] at hrestored
  have hfile : (ofFileSymbols file).root = m' := hm'
  rw [toFileSymbols_eq, hfile, hrestored]
  rfl

end SymbolTable

end HdlIndex
