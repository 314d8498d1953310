import HdlIndex.Proofs.Symbol.Release

/-! Readings of slots. What a reading does to a store it does to the table that the store holds, so
whatever readings lead to holds a table that readings lead to. -/

namespace HdlIndex

namespace ScopeStore

/-! ### Edits -/

/-- A store in the middle of a reading, with the scopes that the reading has opened. -/
structure Reading where
  store : ScopeStore
  opened : List Nat

/-- A reading that starts with a store. -/
def Reading.start (s : ScopeStore) : Reading := ⟨s.beginParse, [rootId]⟩

/-- What a reading can do: declare, import and export names in a scope that it has opened, note the
extent of a container, count a body without a name, and open a container. -/
inductive Edit : Reading → Reading → Prop
  | addSymbol {s : ScopeStore} {opened : List Nat} {id : Nat} (h : id ∈ opened)
      (symbol : Symbol) : Edit ⟨s, opened⟩ ⟨(s.addSymbol id symbol).1, opened⟩
  | addImport {s : ScopeStore} {opened : List Nat} {id : Nat} (h : id ∈ opened)
      (name : String) : Edit ⟨s, opened⟩ ⟨s.addImport id name, opened⟩
  | addExport {s : ScopeStore} {opened : List Nat} {id : Nat} (h : id ∈ opened)
      (name : String) : Edit ⟨s, opened⟩ ⟨s.addExport id name, opened⟩
  | setDefinition {s : ScopeStore} {opened : List Nat} {id : Nat} (h : id ∈ opened)
      (definition : Definition) : Edit ⟨s, opened⟩ ⟨s.setDefinition id definition, opened⟩
  | anonymousName {s : ScopeStore} {opened : List Nat} (stem : String) :
      Edit ⟨s, opened⟩ ⟨(s.anonymousName stem).1, opened⟩
  | openContainer {s : ScopeStore} {opened : List Nat} {id : Nat} (h : id ∈ opened)
      (symbol : Symbol) :
      Edit ⟨s, opened⟩ ⟨(s.openContainer id symbol).1, (s.openContainer id symbol).2 :: opened⟩

/-- Any number of edits, one after another. -/
abbrev Edits := Relation.ReflTransGen Edit

/-- Whether a reading leads from a store to another one. -/
def Parsed (s s' : ScopeStore) : Prop := ∃ r, Edits (.start s) r ∧ s' = r.store.endParse

/-- Stores that come from nothing, or from restored symbols, by readings made of any edits. -/
inductive Edited : ScopeStore → Prop
  | empty : Edited .empty
  | ofFileSymbols (file : FileSymbols) : Edited (.ofFileSymbols file)
  | parsed {s s' : ScopeStore} (h : Edited s) (hp : Parsed s s') : Edited s'

/-! ### Tables that are held -/

/-- Whether a reading of a store is where one of a table is. -/
structure Reading.Holds (r : Reading) (u : Underway) : Prop where
  store : r.store.Holds u.table
  opened : r.opened = u.opened

/-- Each edit of a store is one of the table that it holds, and the other way round. -/
theorem Reading.Holds.step {r : Reading} {u : Underway} (hr : r.Holds u) (hu : u.Orderly) :
    (∀ r', Edit r r' → ∃ u', HdlIndex.Edit u u' ∧ r'.Holds u') ∧
      ∀ u', HdlIndex.Edit u u' → ∃ r', Edit r r' ∧ r'.Holds u' := by
  obtain ⟨s, opened⟩ := r
  obtain ⟨t, _⟩ := u
  obtain ⟨hs, rfl⟩ := hr
  have ht := hu.table.sound
  have hadd {id : Nat} (hid : id ∈ opened) (symbol : Symbol) :
      Reading.Holds ⟨(s.addSymbol id symbol).1, opened⟩ ⟨(t.addSymbol id symbol).1, opened⟩ :=
    ⟨(hs.addSymbol ht (hu.opened id hid) symbol).1, rfl⟩
  have hupdate {id : Nat} (hid : id ∈ opened) (f : Scope → Scope) :
      Reading.Holds ⟨s.update id f, opened⟩ ⟨t.update id f, opened⟩ :=
    ⟨hs.update ht (hu.opened id hid) f, rfl⟩
  have hcount (stem : String) :
      Reading.Holds ⟨(s.anonymousName stem).1, opened⟩ ⟨(t.anonymousName stem).1, opened⟩ :=
    ⟨(hs.anonymousName stem).1, rfl⟩
  have hopen {id : Nat} (hid : id ∈ opened) (symbol : Symbol) :
      Reading.Holds ⟨(s.openContainer id symbol).1, (s.openContainer id symbol).2 :: opened⟩
        ⟨(t.openContainer id symbol).1, (t.openContainer id symbol).2 :: opened⟩ :=
    have h := hs.openContainer ht (hu.opened id hid) symbol
    ⟨h.1, congrArg (· :: opened) h.2⟩
  constructor
  · intro r' h
    cases h with
    | addSymbol hid symbol => exact ⟨_, .addSymbol hid symbol, hadd hid symbol⟩
    | addImport hid name => exact ⟨_, .addImport hid name, hupdate hid _⟩
    | addExport hid name => exact ⟨_, .addExport hid name, hupdate hid _⟩
    | setDefinition hid definition => exact ⟨_, .setDefinition hid definition, hupdate hid _⟩
    | anonymousName stem => exact ⟨_, .anonymousName stem, hcount stem⟩
    | openContainer hid symbol => exact ⟨_, .openContainer hid symbol, hopen hid symbol⟩
  · intro u' h
    cases h with
    | addSymbol hid symbol => exact ⟨_, .addSymbol hid symbol, hadd hid symbol⟩
    | addImport hid name => exact ⟨_, .addImport hid name, hupdate hid _⟩
    | addExport hid name => exact ⟨_, .addExport hid name, hupdate hid _⟩
    | setDefinition hid definition => exact ⟨_, .setDefinition hid definition, hupdate hid _⟩
    | anonymousName stem => exact ⟨_, .anonymousName stem, hcount stem⟩
    | openContainer hid symbol => exact ⟨_, .openContainer hid symbol, hopen hid symbol⟩

/-- If each step of one system has a counterpart in another one, each run has. -/
theorem exists_run {α β : Type} {R : α → α → Prop} {S : β → β → Prop} {P : α → β → Prop}
    (hstep : ∀ {a a' b}, P a b → R a a' → ∃ b', S b b' ∧ P a' b') {a a' : α} {b : β}
    (h : P a b) (hrun : Relation.ReflTransGen R a a') :
    ∃ b', Relation.ReflTransGen S b b' ∧ P a' b' := by
  induction hrun with
  | refl => exact ⟨b, .refl, h⟩
  | tail _ hr ih =>
    obtain ⟨b', hb', h'⟩ := ih
    obtain ⟨b'', hs, h''⟩ := hstep h' hr
    exact ⟨b'', hb'.tail hs, h''⟩

theorem Edits.simulated {r r' : Reading} (h : Edits r r') {u : Underway} (hr : r.Holds u)
    (hu : u.Orderly) : ∃ u', HdlIndex.Edits u u' ∧ r'.Holds u' := by
  have hstep {r r' : Reading} {u : Underway} (hru : r.Holds u ∧ u.Orderly) (hedit : Edit r r') :
      ∃ u', HdlIndex.Edit u u' ∧ r'.Holds u' ∧ u'.Orderly := by
    obtain ⟨u', hedit', hholds⟩ := (hru.1.step hru.2).1 r' hedit
    exact ⟨u', hedit', hholds, hedit'.orderly hru.2⟩
  obtain ⟨u', hu', hholds, -⟩ :=
    exists_run (P := fun (r : Reading) u => r.Holds u ∧ u.Orderly) hstep ⟨hr, hu⟩ h
  exact ⟨u', hu', hholds⟩

theorem Reading.Holds.exists_edits {r : Reading} {u u' : Underway} (hr : r.Holds u)
    (hu : u.Orderly) (h : HdlIndex.Edits u u') : ∃ r', Edits r r' ∧ r'.Holds u' := by
  have hstep {u u' : Underway} {r : Reading} (hru : r.Holds u ∧ u.Orderly)
      (hedit : HdlIndex.Edit u u') : ∃ r', Edit r r' ∧ r'.Holds u' ∧ u'.Orderly := by
    obtain ⟨r', hedit', hholds⟩ := (hru.1.step hru.2).2 u' hedit
    exact ⟨r', hedit', hholds, hedit.orderly hru.2⟩
  obtain ⟨r', hr', hholds, -⟩ :=
    exists_run (P := fun u (r : Reading) => r.Holds u ∧ u.Orderly) hstep ⟨hr, hu⟩ h
  exact ⟨r', hr', hholds⟩

theorem Holds.start {s : ScopeStore} {t : SymbolTable} (h : s.Holds t) (ht : t.Sound) :
    (Reading.start s).Holds (.start t) := ⟨h.beginParse ht, rfl⟩

/-- Behind a reading of a store stands the table behind the reading of the table. -/
theorem Parsed.simulated {s s' : ScopeStore} (h : Parsed s s') {t : SymbolTable}
    (hs : s.Holds t) (ht : t.Orderly) : ∃ t', SymbolTable.Parsed t t' ∧ s'.Holds t' := by
  obtain ⟨r, hr, rfl⟩ := h
  have hstart := ht.beginParse.underway
  obtain ⟨u, hu, hholds⟩ := Edits.simulated hr (hs.start ht.sound) hstart
  exact ⟨_, ⟨u, hu, rfl⟩, hholds.store.endParse (hstart.edits hu).table.sound⟩

/-- A table is read into each store that holds it. -/
theorem Holds.exists_parsed {s : ScopeStore} {t t' : SymbolTable} (hs : s.Holds t) (ht : t.Orderly)
    (h : SymbolTable.Parsed t t') : ∃ s', Parsed s s' ∧ s'.Holds t' := by
  obtain ⟨u, hu, rfl⟩ := h
  have hstart := ht.beginParse.underway
  obtain ⟨r, hr, hholds⟩ := (hs.start ht.sound).exists_edits hstart hu
  exact ⟨_, ⟨r, hr, rfl⟩, hholds.store.endParse (hstart.edits hu).table.sound⟩

/-! ### Restored stores -/

theorem holds_foldl {α : Type} {f : ScopeStore → α → ScopeStore} {g : SymbolTable → α → SymbolTable}
    {id : Nat} (hedit : ∀ t a, HdlIndex.Edit ⟨t, [id]⟩ ⟨g t a, [id]⟩)
    (hstep : ∀ {s t} a, s.Holds t → t.Sound → id ∈ t.root.ids → (f s a).Holds (g t a))
    (items : List α) {s : ScopeStore} {t : SymbolTable} (h : s.Holds t)
    (hu : Underway.Orderly ⟨t, [id]⟩) : (items.foldl f s).Holds (items.foldl g t) := by
  induction items generalizing s t with
  | nil => exact h
  | cons a items ih =>
    exact ih (hstep a h hu.table.sound (hu.opened id List.mem_cons_self)) ((hedit t a).orderly hu)

theorem Holds.addAll {s : ScopeStore} {t : SymbolTable} {id : Nat} (h : s.Holds t)
    (hu : Underway.Orderly ⟨t, [id]⟩) (symbols : List Symbol) (imports exports : List String) :
    (s.addAll id symbols imports exports).Holds (t.addAll id symbols imports exports) := by
  have hid : id ∈ [id] := List.mem_cons_self
  have hsymbols := hu.edits (SymbolTable.edits_foldl (fun _ s => .addSymbol hid s) symbols t)
  have himports := hsymbols.edits
    (SymbolTable.edits_foldl (fun _ name => .addImport hid name) imports _)
  refine holds_foldl (fun _ name => .addExport hid name) (fun _ h ht hid => h.update ht hid _)
    exports ?_ himports
  refine holds_foldl (fun _ name => .addImport hid name) (fun _ h ht hid => h.update ht hid _)
    imports ?_ hsymbols
  exact holds_foldl (fun _ s => .addSymbol hid s) (fun _ h ht hid => h.update ht hid _)
    symbols h hu

theorem orderly_of_subset {t : SymbolTable} {opened opened' : List Nat}
    (h : Underway.Orderly ⟨t, opened⟩) (hsub : opened' ⊆ opened) :
    Underway.Orderly ⟨t, opened'⟩ :=
  ⟨h.table, fun id hid => h.opened id (hsub hid)⟩

mutual

theorem Holds.restore (c : Container) {s : ScopeStore} {t : SymbolTable} {parent : Nat}
    (h : s.Holds t) (hu : Underway.Orderly ⟨t, [parent]⟩) :
    (ScopeStore.restore parent c s).Holds (SymbolTable.restore parent c t) := by
  match c with
  | ⟨symbol, symbols, imports, exports, containers⟩ =>
    have hinner : Underway.Orderly
        ⟨(t.openContainer parent symbol).1, [(t.openContainer parent symbol).2]⟩ :=
      orderly_of_subset (HdlIndex.Edit.orderly (.openContainer List.mem_cons_self symbol) hu)
        (by simp)
    obtain ⟨hopen, hnumber⟩ :=
      h.openContainer hu.table.sound (hu.opened parent List.mem_cons_self) symbol
    have hfilled := hinner.edits
      (SymbolTable.edits_addAll List.mem_cons_self _ symbols imports exports)
    rw [ScopeStore.restore, SymbolTable.restore]
    dsimp only
    rw [hnumber]
    exact Holds.restoreAll containers (hopen.addAll hinner symbols imports exports) hfilled

theorem Holds.restoreAll (cs : List Container) {s : ScopeStore} {t : SymbolTable} {parent : Nat}
    (h : s.Holds t) (hu : Underway.Orderly ⟨t, [parent]⟩) :
    (ScopeStore.restoreAll parent cs s).Holds (SymbolTable.restoreAll parent cs t) := by
  match cs with
  | [] => exact h
  | c :: rest =>
    obtain ⟨opened, hsub, hedits⟩ := SymbolTable.edits_restore c (List.mem_cons_self) t
    exact Holds.restoreAll rest (h.restore c hu) (orderly_of_subset (hu.edits hedits) hsub)

end

theorem holds_ofFileSymbols (file : FileSymbols) :
    (ofFileSymbols file).Holds (.ofFileSymbols file) := by
  have hroot := SymbolTable.orderly_empty.underway
  have hfilled := hroot.edits (SymbolTable.edits_addAll List.mem_cons_self SymbolTable.empty
    file.symbols file.imports file.exports)
  exact Holds.restoreAll file.containers (holds_empty.addAll hroot _ _ _) hfilled

/-- A store that readings lead to holds a table that readings lead to. -/
theorem Edited.simulated {s : ScopeStore} (h : s.Edited) : ∃ t, t.Attainable ∧ s.Holds t := by
  induction h with
  | empty => exact ⟨_, .empty, holds_empty⟩
  | ofFileSymbols file => exact ⟨_, .ofFileSymbols file, holds_ofFileSymbols file⟩
  | parsed _ hp ih =>
    obtain ⟨t, ht, hholds⟩ := ih
    obtain ⟨t', hp', hholds'⟩ := hp.simulated hholds ht.orderly
    exact ⟨t', ht.parsed hp', hholds'⟩

end ScopeStore

end HdlIndex
