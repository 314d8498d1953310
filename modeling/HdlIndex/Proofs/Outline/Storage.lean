import HdlIndex.Session
import HdlIndex.Proofs.Outline.Restoration
import HdlIndex.Proofs.Symbol.Reading

/-! Outlines can be stored. Whatever a document is, what is read of it can be told from its compact
form: each declaration has the path of the scope that it stands in and an extent, and takes the
place of the one with its key. Main statement: the symbols of every outline come back as they were,
both from their compact form and from a table that they are restored into. -/

namespace HdlIndex

/-! ### Rows without repetitions -/

theorem Symbol.eq_or_mem_of_mem_upsert {symbols : List Symbol} {s t : Symbol}
    (h : t ∈ upsert symbols s) : t = s ∨ t ∈ symbols := by
  unfold upsert at h
  split at h
  · exact (List.mem_or_eq_of_mem_set h).symm
  · rcases List.mem_append.1 h with h | h
    · exact .inr h
    · exact .inl (List.mem_singleton.1 h)

theorem Scope.nodup_addOnce {names : List String} (h : names.Nodup) (name : String) :
    (addOnce names name).Nodup := by
  unfold addOnce
  split
  · exact h
  · next hnew =>
    rw [List.contains_iff_mem] at hnew
    rw [List.nodup_append]
    refine ⟨h, by simp, ?_⟩
    rintro old hold new hname rfl
    exact hnew (List.mem_singleton.1 hname ▸ hold)

namespace Container

theorem eq_or_mem_of_mem_put {c d : Container} {cs : List Container} (h : d ∈ c.put cs) :
    d = c ∨ d ∈ cs := by
  induction cs with
  | nil => exact .inl (List.mem_singleton.1 h)
  | cons e rest ih =>
    rw [put] at h
    split at h
    · exact (List.mem_cons.1 h).imp_right (List.mem_cons_of_mem _)
    · rcases List.mem_cons.1 h with rfl | h
      · exact .inr List.mem_cons_self
      · exact (ih h).imp_right (List.mem_cons_of_mem _)

theorem writtenAll_put {path : List String} {c : Container} {cs : List Container}
    (hc : c.Written path) (h : WrittenAll path cs) : WrittenAll path (c.put cs) := by
  induction cs with
  | nil => exact ⟨hc, trivial⟩
  | cons d rest ih =>
    rw [put]
    split
    · exact ⟨hc, h.2⟩
    · exact ⟨h.1, ih h.2⟩

/-- A container takes the place of the one with its key, so no key stands twice. -/
theorem distinctAll_put {c : Container} {cs : List Container} (hc : c.Distinct)
    (h : DistinctAll cs) : DistinctAll (c.put cs) := by
  induction cs with
  | nil => exact ⟨by simp, hc, trivial⟩
  | cons d rest ih =>
    obtain ⟨hkeys, hd, hrest⟩ := h
    rw [put]
    split
    · next hsame =>
      rw [Symbol.sameKey_iff] at hsame
      exact ⟨fun e he => hsame ▸ hkeys e he, hc, hrest⟩
    · next hother =>
      rw [Symbol.sameKey_iff] at hother
      refine ⟨fun e he => ?_, hd, ih hrest⟩
      rcases eq_or_mem_of_mem_put he with rfl | he
      · exact Ne.symm hother
      · exact hkeys e he

end Container

/-! ### What acts leave behind -/

/-- Whether what a scope holds can be stored. The path is that of everything declared inside. -/
structure Contents.Tidy (path : List String) (c : Contents) : Prop where
  symbols : ∀ s ∈ c.symbols, s.Written path
  containers : Container.WrittenAll path c.containers
  keys : (c.symbols.map Symbol.key).Nodup
  imports : c.imports.Nodup
  exports : c.exports.Nodup
  distinct : Container.DistinctAll c.containers

namespace Act

theorem tidy_empty (path : List String) : Contents.Tidy path {} where
  symbols := by simp
  containers := trivial
  keys := .nil
  imports := .nil
  exports := .nil
  distinct := trivial

mutual

/-- An act leaves a scope behind that can be stored if it found one. -/
theorem tidy_apply (a : Act) {path : List String} {c : Contents} (ha : a.HasExtent)
    (h : c.Tidy path) : (a.apply path c).Tidy path := by
  match a with
  | .declare symbol =>
    refine { h with symbols := fun s hs => ?_, keys := Symbol.nodup_keys_upsert h.keys _ }
    rcases Symbol.eq_or_mem_of_mem_upsert hs with rfl | hs
    · exact ⟨rfl, ha⟩
    · exact h.symbols s hs
  | .importing name => exact { h with imports := Scope.nodup_addOnce h.imports name }
  | .exporting name => exact { h with exports := Scope.nodup_addOnce h.exports name }
  | .countAnonymous => exact h
  | .container symbol acts definition =>
    have hinner := tidy_applyAll acts ha.2 (tidy_empty (path ++ [symbol.name]))
    refine { h with containers := ?_, distinct := ?_ }
    · exact Container.writtenAll_put ⟨⟨rfl, ha.1⟩, hinner.symbols, hinner.containers⟩ h.containers
    · exact Container.distinctAll_put ⟨hinner.keys, hinner.imports, hinner.exports, hinner.distinct⟩
        h.distinct

theorem tidy_applyAll (acts : List Act) {path : List String} {c : Contents}
    (ha : HaveExtent acts) (h : c.Tidy path) : (applyAll path acts c).Tidy path := by
  match acts with
  | [] => exact h
  | a :: acts => exact tidy_applyAll acts ha.2 (tidy_apply a ha.1 h)

end

theorem haveExtent_declare {symbols : List Symbol} (h : ∀ s ∈ symbols, s.definition ≠ .multi []) :
    HaveExtent (symbols.map .declare) := by
  induction symbols with
  | nil => trivial
  | cons s rest ih =>
    exact ⟨h s List.mem_cons_self, ih fun t ht => h t (List.mem_cons_of_mem _ ht)⟩

theorem respectKinds_declare {symbols : List Symbol} (h : ∀ s ∈ symbols, s.kind.isContainer = false) :
    RespectKinds (symbols.map .declare) := by
  induction symbols with
  | nil => trivial
  | cons s rest ih =>
    exact ⟨h s List.mem_cons_self, ih fun t ht => h t (List.mem_cons_of_mem _ ht)⟩

end Act

/-! ### Outlines -/

/-- Whether a symbol stands for the definition of a macro in the text of a document. -/
structure Symbol.IsMacro (s : Symbol) : Prop where
  kind : ∃ replacement, s.kind = .textMacro replacement
  definition : ∃ range, s.definition = .single range

theorem Symbol.IsMacro.definition_ne {s : Symbol} (h : s.IsMacro) : s.definition ≠ .multi [] := by
  obtain ⟨range, hrange⟩ := h.definition
  simp [hrange]

theorem Symbol.IsMacro.isContainer {s : Symbol} (h : s.IsMacro) : s.kind.isContainer = false := by
  obtain ⟨replacement, hkind⟩ := h.kind
  rw [hkind]
  rfl

namespace Outline

/-- What is read of a document is what acts leave behind in an empty file. All that they declare has
an extent and stands where symbols of its kind do. -/
theorem exists_acts {p : Preprocessed} (hp : ∀ s ∈ p.symbols, s.IsMacro) (limits : Limits)
    (t : SymbolTable) :
    ∃ acts, Act.HaveExtent acts ∧ Act.RespectKinds acts ∧
      (resultOf p limits t).table = Act.performAll SymbolTable.rootId acts t.beginParse := by
  obtain ⟨-, acts, hd, -⟩ := Twin.match_run.uniform _ _
    (agrees_startOf p (tokensOf p limits) t t)
  have hextents := Act.haveExtent_declare fun s hs => (hp s hs).definition_ne
  have hkinds := Act.respectKinds_declare fun s hs => (hp s hs).isContainer
  refine ⟨p.symbols.map .declare ++ acts, Act.haveExtent_append hextents hd.extents,
    Act.respectKinds_append hkinds hd.kinds, ?_⟩
  rw [Act.performAll_append, ← table_startOf p (tokensOf p limits)]
  exact hd.table

/-- A document is read into slots as into the table that they hold, and its symbols are theirs. -/
theorem exists_parsed_store {s : ScopeStore} {t : SymbolTable} (hs : s.Holds t) (ht : t.Orderly)
    (p : Preprocessed) (limits : Limits) :
    ∃ s', ScopeStore.Parsed s s' ∧ s'.Holds (read p limits t).2 ∧
      s'.toFileSymbols p.includes = (read p limits t).1.symbols := by
  have hread := parsed_read p limits t
  obtain ⟨s', hp, hholds⟩ := hs.exists_parsed ht hread
  exact ⟨s', hp, hholds, hholds.toFileSymbols (ht.parsed hread).sound p.includes⟩

/-- The symbols of an outline are what acts leave behind, without the table. -/
theorem exists_symbols_eq {p : Preprocessed} (hp : ∀ s ∈ p.symbols, s.IsMacro) (limits : Limits)
    {t : SymbolTable} (h : t.Sound) :
    ∃ acts, Act.HaveExtent acts ∧ Act.RespectKinds acts ∧
      (read p limits t).1.symbols =
        { symbols := (Act.applyAll [] acts {}).symbols
          imports := (Act.applyAll [] acts {}).imports
          exports := (Act.applyAll [] acts {}).exports
          containers := (Act.applyAll [] acts {}).containers
          includes := p.includes } := by
  obtain ⟨acts, hextents, hkinds, hacts⟩ := exists_acts hp limits t
  exact ⟨acts, hextents, hkinds, symbols_read h hacts⟩

/-- The symbols of an outline can be stored. -/
theorem stored_read {p : Preprocessed} (hp : ∀ s ∈ p.symbols, s.IsMacro) (limits : Limits)
    {t : SymbolTable} (h : t.Sound) :
    (read p limits t).1.symbols.Written ∧ (read p limits t).1.symbols.Distinct := by
  obtain ⟨acts, hextents, -, hsymbols⟩ := exists_symbols_eq hp limits h
  have htidy := Act.tidy_applyAll acts hextents (Act.tidy_empty [])
  rw [hsymbols]
  exact ⟨⟨htidy.symbols, htidy.containers⟩,
    ⟨htidy.keys, htidy.imports, htidy.exports, htidy.distinct⟩⟩

end Outline

/-! ### Documents -/

namespace Preprocess

/-- A definition is noted with a range of the text, and an included file leaves its own behind. -/
theorem isMacro_applyEffect (env : Env) (nested : Option Process) (chain : List Path)
    (file text : String) {st : FileState} (h : ∀ s ∈ st.symbols, s.IsMacro)
    (run : RunState) (effect : Effect) :
    ∀ s ∈ (applyEffect env nested chain file text st run effect).1.symbols, s.IsMacro := by
  cases effect with
  | define d =>
    intro s hs
    rcases Symbol.eq_or_mem_of_mem_upsert hs with rfl | hs
    · exact ⟨⟨_, rfl⟩, _, rfl⟩
    · exact h s hs
  | inclusion spec offset =>
    rw [applyEffect]
    rcases findInclude env nested chain file spec run with ⟨_ | ⟨path, found⟩, after⟩
    · exact h
    · exact h
  | _ => exact h

theorem isMacro_scan (env : Env) (nested : Option Process) (chain : List Path)
    (file text : String) (st : FileState) (run : RunState) (tokens : List Lexeme)
    (h : ∀ s ∈ st.symbols, s.IsMacro) :
    ∀ s ∈ (scan env nested chain file text st run tokens).1.symbols, s.IsMacro := by
  fun_induction scan env nested chain file text st run tokens with
  | case1 st run hc => exact h
  | case2 st run hc => exact h
  | case3 st run t rest item before after run' heq ih =>
    apply ih
    have step := isMacro_applyEffect env nested chain file text h before item.effect
    rw [heq] at step
    exact step

theorem isMacro_process (env : Env) (depth : Nat) (chain : List Path) (file text : String)
    (run : RunState) :
    ∀ s ∈ (process env depth chain file text run).1.symbols, s.IsMacro := by
  cases depth <;> exact isMacro_scan env _ chain file text {} _ _ (by simp)

/-- The definitions that a document makes are ranges of its text. -/
theorem isMacro_document (env : Env) (cache : IncludeCache) (file text : String) :
    ∀ s ∈ (document env cache file text).1.symbols, s.IsMacro := by
  unfold document
  dsimp only
  split
  · simp
  · exact isMacro_process env _ _ file text _

end Preprocess

/-! ### Sessions -/

/-- Whether symbols come back as they were, from their compact form and from the table that they are
restored into. -/
structure FileSymbols.Survives (file : FileSymbols) : Prop where
  decoded : decode file.encode = .ok file
  restored : (SymbolTable.ofFileSymbols file).toFileSymbols file.includes = file

namespace Session

theorem attainable_outlineInto (s : Session) {t : SymbolTable} (h : t.Attainable)
    (file text : String) : (s.outlineInto t file text).2.1.Attainable :=
  h.parsed (Outline.parsed_read _ _ _)

theorem survives_outlineInto (s : Session) {t : SymbolTable} (h : t.Attainable)
    (file text : String) : (s.outlineInto t file text).1.symbols.Survives := by
  obtain ⟨hwritten, hdistinct⟩ := Outline.stored_read
    (Preprocess.isMacro_document s.env s.cache file text) s.options.limits h.orderly.sound
  exact ⟨hwritten.decode_encode, SymbolTable.toFileSymbols_ofFileSymbols hwritten hdistinct⟩

/-- Whatever the state of a session, and whatever was done to a table before a document is read into
it, the symbols of the outline survive. -/
theorem survives_outline (s : Session) (file text : String) :
    (s.outline file text).1.symbols.Survives ∧
      ∀ t : SymbolTable, t.Attainable → (s.outlineInto t file text).1.symbols.Survives :=
  ⟨s.survives_outlineInto .empty file text, fun _ h => s.survives_outlineInto h file text⟩

/-- A session with no files. -/
def withoutFiles : Session := { options := {}, provider := Files.empty.provider }

/-- A module is read into the table behind a reading that also saw a task in it. -/
theorem survives_outline_again :
    (withoutFiles.outlineInto .empty "m.sv" "module m; task f; endtask endmodule").2.1.Attainable ∧
      (withoutFiles.outlineInto
        (withoutFiles.outlineInto .empty "m.sv" "module m; task f; endtask endmodule").2.1
        "m.sv" "module m; endmodule").1.symbols.Survives :=
  have h := withoutFiles.attainable_outlineInto .empty "m.sv" "module m; task f; endtask endmodule"
  ⟨h, (survives_outline withoutFiles "m.sv" "module m; endmodule").2 _ h⟩

end Session

end HdlIndex
