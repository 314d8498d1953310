import HdlIndex.Outline
import HdlIndex.Proofs.Outline.Rules
import HdlIndex.Proofs.Symbol.Edits

/-! Outlines do not depend on the past. A document can be read into a table that holds what was read
before, so that containers keep their numbers. Main statement: the outline is the one that is read
into an empty table, whatever was restored into the table or read into it earlier. -/

namespace HdlIndex

namespace SymbolTable

theorem addAll_eq (t : SymbolTable) (id : Nat) (symbols : List Symbol)
    (imports exports : List String) :
    t.addAll id symbols imports exports =
      Act.performAll id (symbols.map .declare ++ imports.map .importing ++
        exports.map .exporting) t := by
  have hdeclare (symbols : List Symbol) (t : SymbolTable) :
      symbols.foldl (fun t s => (t.addSymbol id s).1) t =
        Act.performAll id (symbols.map .declare) t := by
    induction symbols generalizing t with
    | nil => rfl
    | cons s symbols ih => exact ih (t.addSymbol id s).1
  have himport (names : List String) (t : SymbolTable) :
      names.foldl (·.addImport id ·) t = Act.performAll id (names.map .importing) t := by
    induction names generalizing t with
    | nil => rfl
    | cons name names ih => exact ih (t.addImport id name)
  have hexport (names : List String) (t : SymbolTable) :
      names.foldl (·.addExport id ·) t = Act.performAll id (names.map .exporting) t := by
    induction names generalizing t with
    | nil => rfl
    | cons name names ih => exact ih (t.addExport id name)
  rw [addAll, hdeclare, himport, hexport, Act.performAll_append, Act.performAll_append]

end SymbolTable

/-! ### Acts are edits -/

namespace Act

mutual

/-- An act edits the scope that it is done in and the containers that it opens. -/
theorem edits_perform (a : Act) {opened : List Nat} {id : Nat} (h : id ∈ opened)
    (t : SymbolTable) :
    ∃ opened', opened ⊆ opened' ∧ Edits ⟨t, opened⟩ ⟨a.perform id t, opened'⟩ := by
  match a with
  | .declare symbol => exact ⟨opened, List.Subset.refl _, .single (.addSymbol h symbol)⟩
  | .importing name => exact ⟨opened, List.Subset.refl _, .single (.addImport h name)⟩
  | .exporting name => exact ⟨opened, List.Subset.refl _, .single (.addExport h name)⟩
  | .countAnonymous => exact ⟨opened, List.Subset.refl _, .single (.anonymousName "")⟩
  | .container symbol acts definition =>
    have hinner : (t.openContainer id symbol).2 ∈ (t.openContainer id symbol).2 :: opened :=
      List.mem_cons_self
    obtain ⟨opened', hsub, hacts⟩ := edits_performAll acts hinner (t.openContainer id symbol).1
    refine ⟨opened', fun i hi => hsub (List.mem_cons_of_mem _ hi), ?_⟩
    exact (hacts.head (.openContainer h symbol)).tail (.setDefinition (hsub hinner) definition)

theorem edits_performAll (acts : List Act) {opened : List Nat} {id : Nat} (h : id ∈ opened)
    (t : SymbolTable) :
    ∃ opened', opened ⊆ opened' ∧ Edits ⟨t, opened⟩ ⟨performAll id acts t, opened'⟩ := by
  match acts with
  | [] => exact ⟨opened, List.Subset.refl _, .refl⟩
  | a :: acts =>
    obtain ⟨opened', hsub, ha⟩ := edits_perform a h t
    obtain ⟨opened'', hsub', hacts⟩ := edits_performAll acts (hsub h) (a.perform id t)
    exact ⟨opened'', fun i hi => hsub' (hsub hi), ha.trans hacts⟩

end

end Act

/-! ### One reading -/

namespace Node

mutual

/-- Containers that are dropped at the end of a reading are not among those of the file. -/
theorem toContainer?_sweep (n : Node) : n.sweep.toContainer? = n.toContainer? := by
  match n with
  | ⟨id, scope, children, previous⟩ =>
    rw [sweep, toContainer?, toContainer?, containersOf_sweepAll children]

theorem containersOf_sweepAll (nodes : List Node) :
    containersOf (sweepAll nodes) = containersOf nodes := by
  match nodes with
  | [] => rfl
  | n :: rest =>
    rw [sweepAll, containersOf, containersOf, toContainer?_sweep n, containersOf_sweepAll rest]

end

end Node

namespace SymbolTable

/-- What a table holds behind a reading is what the acts of the reading mean, done in an empty
file. -/
theorem Sound.contents_endParse {t : SymbolTable} (h : t.Sound) (acts : List Act) :
    (Act.performAll rootId acts t.beginParse).endParse.Sound ∧
      (Act.performAll rootId acts t.beginParse).endParse.root.contents =
        Act.applyAll [] acts {} := by
  have hbegin := h.beginParse
  have hempty : t.beginParse.root.contents = {} := rfl
  have hroot : t.beginParse.root = Surroundings.fill [] t.beginParse.root := rfl
  obtain ⟨hsound, m, hm, -, -, -, hcontents⟩ := Act.holds_performAll acts hbegin hroot
  rw [hbegin.root_id] at hsound hm
  rw [hbegin.root_path, hempty] at hcontents
  refine ⟨hsound.endParse, ?_⟩
  rw [← hcontents]
  show Node.contents (Node.sweep (Act.performAll rootId acts t.beginParse).root) = m.contents
  rw [hm]
  show (Node.sweep m).contents = m.contents
  obtain ⟨id, scope, children, previous⟩ := m
  rw [Node.contents, Node.contents, Node.sweep, Node.containersOf_sweepAll]

/-- The symbols of a file are what its outermost scope holds. -/
theorem toFileSymbols_eq (t : SymbolTable) (includes : List String) :
    t.toFileSymbols includes =
      { symbols := t.root.contents.symbols
        imports := t.root.contents.imports
        exports := t.root.contents.exports
        containers := t.root.contents.containers
        includes } := rfl

end SymbolTable

namespace Outline

/-- Where a reading into a table starts. -/
def startOf (p : Preprocessed) (tokens : List OutlineToken) (t : SymbolTable) : Reading where
  cursor := .start tokens
  table := t.beginParse.addAll SymbolTable.rootId p.symbols [] []
  packages := packagesOf tokens

/-- The tokens that are read of a document. -/
def tokensOf (p : Preprocessed) (limits : Limits) : List OutlineToken :=
  (OutlineToken.significant (Grammar.structural.tokenize p.stream.text)).take limits.tokens

/-- Where a reading into a table ends. -/
def resultOf (p : Preprocessed) (limits : Limits) (t : SymbolTable) : Reading :=
  (startOf p (tokensOf p limits) t).run (.ofPreprocessed p)

theorem read_table (p : Preprocessed) (limits : Limits) (t : SymbolTable) :
    (read p limits t).2 = (resultOf p limits t).table.endParse := rfl

theorem agrees_startOf (p : Preprocessed) (tokens : List OutlineToken) (t t' : SymbolTable) :
    (startOf p tokens t).Agrees (startOf p tokens t') where
  cursor := rfl
  packages := rfl
  skipped := rfl
  anonymous := by
    simp only [startOf, SymbolTable.addAll_eq, Act.anonymous_performAll]
    rfl
  inScope := List.cons_ne_nil _ _
  inScope' := List.cons_ne_nil _ _

theorem table_startOf (p : Preprocessed) (tokens : List OutlineToken) (t : SymbolTable) :
    (startOf p tokens t).table =
      Act.performAll SymbolTable.rootId (p.symbols.map .declare) t.beginParse := by
  rw [startOf, SymbolTable.addAll_eq]
  simp only [List.map_nil, List.append_nil]

/-- Readings of one document into two tables do the same acts in the file scope and end at the same
place. -/
theorem resultOf_inStep (p : Preprocessed) (limits : Limits) (t t' : SymbolTable) :
    (resultOf p limits t).Agrees (resultOf p limits t') ∧ ∃ acts,
      (resultOf p limits t).table = Act.performAll SymbolTable.rootId acts t.beginParse ∧
      (resultOf p limits t').table = Act.performAll SymbolTable.rootId acts t'.beginParse := by
  obtain ⟨hagrees, acts, hd, hd'⟩ := Twin.match_run.uniform _ _
    (agrees_startOf p (tokensOf p limits) t t')
  refine ⟨hagrees, p.symbols.map .declare ++ acts, ?_, ?_⟩
  · rw [Act.performAll_append, ← table_startOf p (tokensOf p limits)]
    exact hd.table
  · rw [Act.performAll_append, ← table_startOf p (tokensOf p limits)]
    exact hd'.table

/-- To read a document is to edit the table. -/
theorem parsed_read (p : Preprocessed) (limits : Limits) (t : SymbolTable) :
    SymbolTable.Parsed t (read p limits t).2 := by
  obtain ⟨-, acts, hacts, -⟩ := resultOf_inStep p limits t t
  obtain ⟨opened, -, hedits⟩ := Act.edits_performAll acts
    (List.mem_singleton_self SymbolTable.rootId) t.beginParse
  refine ⟨_, hedits, ?_⟩
  rw [read_table, hacts]

end Outline

/-! ### All readings -/

namespace SymbolTable

/-- Tables that come from nothing, or from restored symbols, by reading documents. -/
inductive Reachable : SymbolTable → Prop
  | empty : Reachable .empty
  | ofFileSymbols (file : FileSymbols) : Reachable (.ofFileSymbols file)
  | read {t : SymbolTable} (h : Reachable t) (p : Preprocessed) (limits : Limits) :
      Reachable (Outline.read p limits t).2

/-- To read a document is to make edits. -/
theorem Reachable.attainable {t : SymbolTable} (h : t.Reachable) : t.Attainable := by
  induction h with
  | empty => exact .empty
  | ofFileSymbols file => exact .ofFileSymbols file
  | read _ p limits ih => exact ih.parsed (Outline.parsed_read p limits _)

end SymbolTable

namespace Outline

/-- The symbols of an outline are what acts leave behind, without the table. -/
theorem symbols_read {p : Preprocessed} {limits : Limits} {t : SymbolTable} (h : t.Sound)
    {acts : List Act} (hacts : (resultOf p limits t).table =
      Act.performAll SymbolTable.rootId acts t.beginParse) :
    (read p limits t).1.symbols =
      { symbols := (Act.applyAll [] acts {}).symbols
        imports := (Act.applyAll [] acts {}).imports
        exports := (Act.applyAll [] acts {}).exports
        containers := (Act.applyAll [] acts {}).containers
        includes := p.includes } := by
  show (read p limits t).2.toFileSymbols p.includes = _
  rw [SymbolTable.toFileSymbols_eq, read_table, hacts, (h.contents_endParse acts).2]

/-- An outline does not depend on what was read into its table before. -/
theorem read_eq_read_empty {t : SymbolTable} (h : t.Reachable) (p : Preprocessed)
    (limits : Limits) : (read p limits t).1 = (read p limits .empty).1 := by
  obtain ⟨hagrees, acts, hacts, hacts'⟩ := resultOf_inStep p limits t .empty
  have hsymbols := (symbols_read h.attainable.orderly.sound hacts).trans
    (symbols_read SymbolTable.sound_empty hacts').symm
  show Outline.mk (read p limits t).1.symbols (resultOf p limits t).packages _
    (resultOf p limits t).skipped.toList = _
  rw [hsymbols, hagrees.packages, hagrees.skipped]
  rfl

theorem read_again_eq_read_empty :
    (SymbolTable.ofFileSymbols
        { containers :=
            [{ symbol := { name := "m", kind := .hdlModule }, imports := ["pkg::*"] },
             { symbol := { name := "n", kind := .interface } }] }).Reachable ∧
      (read { file := "m.sv", stream := { tokens := #[⟨"module m; endmodule", 0, 19⟩] } } {}
        (SymbolTable.ofFileSymbols
          { containers :=
              [{ symbol := { name := "m", kind := .hdlModule }, imports := ["pkg::*"] },
               { symbol := { name := "n", kind := .interface } }] })).1 =
      (read { file := "m.sv", stream := { tokens := #[⟨"module m; endmodule", 0, 19⟩] } } {}
        .empty).1 :=
  ⟨.ofFileSymbols _, read_eq_read_empty (.ofFileSymbols _) _ _⟩

end Outline

end HdlIndex
