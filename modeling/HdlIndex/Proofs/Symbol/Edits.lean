import HdlIndex.Proofs.Symbol.Distinct
import Mathlib.Logic.Relation

/-! Readings as sequences of edits. A reading starts, edits the scopes that it has opened in any
order, and ends. Main statement: whatever edits are made, the numbers of a table are divided between
its tree and those given up, each container hangs where its path says, and no declaration stands
twice in a scope. -/

namespace HdlIndex

/-! ### Scopes by number -/

theorem Surroundings.fill_append (inner outer : Surroundings) (n : Node) :
    fill (inner ++ outer) n = fill outer (fill inner n) := List.foldl_append

namespace Node

mutual

/-- A number that occurs in a tree is that of a scope in its surroundings. -/
theorem exists_focus {id : Nat} (n : Node) (h : id ∈ n.ids) :
    ∃ around m, n = Surroundings.fill around m ∧ m.id = id := by
  match n with
  | ⟨i, scope, children, previous⟩ =>
    rw [ids, List.mem_cons, List.mem_append] at h
    rcases h with rfl | h | h
    · exact ⟨[], _, rfl, rfl⟩
    · obtain ⟨before, c, after, hrow, around, m, hc, hm⟩ := exists_focus_row children h
      refine ⟨around ++ [⟨i, scope, before, after, previous, false⟩], m, ?_, hm⟩
      rw [Surroundings.fill_append, ← hc, hrow]
      rfl
    · obtain ⟨before, c, after, hrow, around, m, hc, hm⟩ := exists_focus_row previous h
      refine ⟨around ++ [⟨i, scope, before, after, children, true⟩], m, ?_, hm⟩
      rw [Surroundings.fill_append, ← hc, hrow]
      rfl

theorem exists_focus_row {id : Nat} (nodes : List Node) (h : id ∈ idsOf nodes) :
    ∃ before c after, nodes = before ++ c :: after ∧
      ∃ around m, c = Surroundings.fill around m ∧ m.id = id := by
  match nodes with
  | [] => simp [idsOf] at h
  | n :: rest =>
    rw [idsOf, List.mem_append] at h
    rcases h with h | h
    · exact ⟨[], n, rest, rfl, exists_focus n h⟩
    · obtain ⟨before, c, after, hrow, hfocus⟩ := exists_focus_row rest h
      exact ⟨n :: before, c, after, by rw [hrow]; rfl, hfocus⟩

end

/-- A container of a scope stands in a frame that the scope is. -/
theorem exists_frame {n c : Node} (h : c ∈ n.containers) : ∃ f : Frame, n = f.fill c := by
  obtain ⟨id, scope, children, previous⟩ := n
  rcases List.mem_append.1 h with h | h
  · obtain ⟨before, after, rfl⟩ := List.append_of_mem h
    exact ⟨⟨id, scope, before, after, previous, false⟩, rfl⟩
  · obtain ⟨before, after, rfl⟩ := List.append_of_mem h
    exact ⟨⟨id, scope, before, after, children, true⟩, rfl⟩

end Node

namespace SymbolTable

/-- Sound tables in which no declaration stands twice in a scope. -/
structure Orderly (t : SymbolTable) : Prop where
  sound : t.Sound
  distinct : t.root.Distinct

theorem orderly_empty : empty.Orderly := ⟨sound_empty, distinct_empty⟩

theorem Orderly.beginParse {t : SymbolTable} (h : t.Orderly) : t.beginParse.Orderly :=
  ⟨h.sound.beginParse, h.distinct.reset⟩

theorem Orderly.endParse {t : SymbolTable} (h : t.Orderly) : t.endParse.Orderly :=
  ⟨h.sound.endParse, h.distinct.sweep⟩

section Focus

variable {t : SymbolTable} {around : Surroundings} {n : Node}

theorem id_mem_of_focus (hr : t.root = around.fill n) : n.id ∈ t.root.ids := by
  rw [hr]
  exact (around.perm_ids_fill n).symm.subset (List.mem_append_right _ n.id_mem_ids)

/-- The numbers of the tree are those that are not given up. -/
theorem Sound.mem_ids_iff (h : t.Sound) (id : Nat) :
    id ∈ t.root.ids ↔ id < t.slots ∧ id ∉ t.free := by
  have hmem := h.numbers.mem_iff (a := id)
  rw [List.mem_append, List.mem_range] at hmem
  have hapart : id ∈ t.root.ids → id ∉ t.free := fun hid hfree =>
    (List.nodup_append.1 h.nodup).2.2 id hid id hfree rfl
  constructor
  · intro hid
    exact ⟨hmem.1 (.inl hid), hapart hid⟩
  · rintro ⟨hlt, hfree⟩
    exact (hmem.2 hlt).resolve_right hfree

/-- A scope that is found by its number stands in surroundings. -/
theorem Sound.focus_of_find? (h : t.Sound) {id : Nat} (hn : t.root.find? id = some n) :
    n.id = id ∧ ∃ around : Surroundings, t.root = around.fill n := by
  have hmem : id ∈ t.root.ids := by
    refine Decidable.byContradiction fun hnot => ?_
    rw [t.root.find?_of_not_mem hnot] at hn
    cases hn
  obtain ⟨around, m, hr, rfl⟩ := t.root.exists_focus hmem
  rw [h.find?_focus hr] at hn
  cases hn
  exact ⟨rfl, around, hr⟩

end Focus

end SymbolTable

/-! ### Edits -/

/-- A table in the middle of a reading, with the scopes that the reading has opened. -/
structure Underway where
  table : SymbolTable
  opened : List Nat

/-- A reading that starts with a table. -/
def Underway.start (t : SymbolTable) : Underway := ⟨t.beginParse, [SymbolTable.rootId]⟩

/-- What a reading can do: declare, import and export names in a scope that it has opened, note the
extent of a container, count a body without a name, and open a container. -/
inductive Edit : Underway → Underway → Prop
  | addSymbol {t : SymbolTable} {opened : List Nat} {id : Nat} (h : id ∈ opened)
      (symbol : Symbol) : Edit ⟨t, opened⟩ ⟨(t.addSymbol id symbol).1, opened⟩
  | addImport {t : SymbolTable} {opened : List Nat} {id : Nat} (h : id ∈ opened)
      (name : String) : Edit ⟨t, opened⟩ ⟨t.addImport id name, opened⟩
  | addExport {t : SymbolTable} {opened : List Nat} {id : Nat} (h : id ∈ opened)
      (name : String) : Edit ⟨t, opened⟩ ⟨t.addExport id name, opened⟩
  | setDefinition {t : SymbolTable} {opened : List Nat} {id : Nat} (h : id ∈ opened)
      (definition : Definition) : Edit ⟨t, opened⟩ ⟨t.setDefinition id definition, opened⟩
  | anonymousName {t : SymbolTable} {opened : List Nat} (stem : String) :
      Edit ⟨t, opened⟩ ⟨(t.anonymousName stem).1, opened⟩
  | openContainer {t : SymbolTable} {opened : List Nat} {id : Nat} (h : id ∈ opened)
      (symbol : Symbol) :
      Edit ⟨t, opened⟩ ⟨(t.openContainer id symbol).1, (t.openContainer id symbol).2 :: opened⟩

/-- Any number of edits, one after another. -/
abbrev Edits := Relation.ReflTransGen Edit

/-! ### One edit -/

/-- A change of what a scope declares that is none of the container around it. -/
structure Scope.Refines (f : Scope → Scope) : Prop where
  replaces : ∀ s, (f s).Replaces s
  key : ∀ s, (f s).key? = s.key?
  leaves : ∀ s, (s.symbols.map Symbol.key).Nodup → ((f s).symbols.map Symbol.key).Nodup

/-- An edit refines an opened scope, counts a body without a name, or opens a container. -/
theorem Edit.cases_on {u v : Underway} (h : Edit u v) :
    (∃ id ∈ u.opened, ∃ f, Scope.Refines f ∧ v = ⟨u.table.update id f, u.opened⟩) ∨
      (∃ count, v = ⟨{ u.table with anonymous := count }, u.opened⟩) ∨
      ∃ id ∈ u.opened, ∃ symbol, v = ⟨(u.table.openContainer id symbol).1,
        (u.table.openContainer id symbol).2 :: u.opened⟩ := by
  cases h with
  | addSymbol hid symbol =>
    exact .inl ⟨_, hid, Scope.addSymbol symbol, ⟨fun _ => .of_eq rfl rfl, fun _ => rfl,
      fun _ h => Symbol.nodup_keys_upsert h _⟩, rfl⟩
  | addImport hid name =>
    exact .inl ⟨_, hid, Scope.addImport name, ⟨fun _ => .of_eq rfl rfl, fun _ => rfl,
      fun _ h => h⟩, rfl⟩
  | addExport hid name =>
    exact .inl ⟨_, hid, Scope.addExport name, ⟨fun _ => .of_eq rfl rfl, fun _ => rfl,
      fun _ h => h⟩, rfl⟩
  | setDefinition hid definition =>
    exact .inl ⟨_, hid, Scope.setDefinition definition,
      ⟨fun s => s.replaces_setDefinition definition, fun s => s.key?_setDefinition definition,
        fun _ h => h⟩, rfl⟩
  | anonymousName stem => exact .inr (.inl ⟨_, rfl⟩)
  | openContainer hid symbol => exact .inr (.inr ⟨_, hid, symbol, rfl⟩)

namespace SymbolTable

/-- No number is given up before the reading ends. -/
theorem Sound.ids_subset {t t' : SymbolTable} (h : t.Sound) (h' : t'.Sound)
    (hslots : t.slots ≤ t'.slots) (hfree : t'.free ⊆ t.free) : t.root.ids ⊆ t'.root.ids := by
  intro id hid
  rw [h.mem_ids_iff] at hid
  rw [h'.mem_ids_iff]
  exact ⟨Nat.lt_of_lt_of_le hid.1 hslots, fun hmem => hid.2 (hfree hmem)⟩

theorem slots_le_takeId (t : SymbolTable) : t.slots ≤ t.takeId.slots := by
  unfold takeId
  cases t.free with
  | nil => exact Nat.le_succ _
  | cons id rest => exact Nat.le_refl _

theorem free_takeId_subset (t : SymbolTable) : t.takeId.free ⊆ t.free := by
  unfold takeId
  cases hfree : t.free with
  | nil => simp
  | cons id rest => exact List.subset_cons_self id rest

/-- Opening a container takes at most one number out of the supply. -/
theorem Opened.supply {t t' : SymbolTable} {around : Surroundings} {n : Node} {symbol : Symbol}
    {id : Nat} (h : Opened t around n symbol t' id) :
    t.slots ≤ t'.slots ∧ t'.free ⊆ t.free := by
  cases h with
  | again hc hbefore hfor => exact ⟨Nat.le_refl _, List.Subset.refl _⟩
  | previous hchildren hc hfor => exact ⟨Nat.le_refl _, List.Subset.refl _⟩
  | fresh hchildren hprevious => exact ⟨t.slots_le_takeId, t.free_takeId_subset⟩

end SymbolTable

/-- Whether the table is orderly and all scopes that were opened are in its tree. -/
structure Underway.Orderly (u : Underway) : Prop where
  table : u.table.Orderly
  opened : ∀ id ∈ u.opened, id ∈ u.table.root.ids

/-- An edit keeps the table orderly, and an opened scope in the tree. -/
theorem Edit.orderly {u v : Underway} (h : Edit u v) (hu : u.Orderly) : v.Orderly := by
  obtain ⟨⟨hsound, hdistinct⟩, hopened⟩ := hu
  rcases h.cases_on with ⟨id, hid, f, hf, rfl⟩ | ⟨count, rfl⟩ | ⟨id, hid, symbol, rfl⟩
  · obtain ⟨around, n, hr, rfl⟩ := u.table.root.exists_focus (hopened _ hid)
    have hleaves := (Surroundings.distinct_of_fill (hr ▸ hdistinct)).leaves
    have hsound' := hsound.update hr (hf.replaces n.scope)
    have hdistinct' := SymbolTable.distinct_update hsound hdistinct hr
      (hf.leaves n.scope hleaves) (hf.key n.scope)
    have hslots := congrArg SymbolTable.slots (hsound.update_focus hr f)
    have hfree := congrArg SymbolTable.free (hsound.update_focus hr f)
    refine ⟨⟨hsound', hdistinct'⟩, fun i hi => ?_⟩
    exact hsound.ids_subset hsound' (Nat.le_of_eq hslots.symm) (fun _ hmem => hfree ▸ hmem)
      (hopened i hi)
  · exact ⟨⟨⟨hsound.numbers, hsound.root_id, hsound.root_path, hsound.tree⟩, hdistinct⟩, hopened⟩
  · obtain ⟨around, n, hr, rfl⟩ := u.table.root.exists_focus (hopened _ hid)
    have ho := hsound.openContainer_opened hr symbol
    obtain ⟨before, child, after, previous, hsound', hchild, hroot, -⟩ := ho.sound hsound hr rfl
    have hfocus : (u.table.openContainer n.id symbol).1.root = Surroundings.fill
        (⟨n.id, n.scope, before, after, previous, false⟩ :: around) child := hroot
    refine ⟨⟨hsound', ho.distinct hdistinct hr⟩, fun i hi => ?_⟩
    rcases List.mem_cons.1 hi with rfl | hi
    · rw [← hchild]
      exact SymbolTable.id_mem_of_focus hfocus
    · exact hsound.ids_subset hsound' ho.supply.1 ho.supply.2 (hopened i hi)

theorem Underway.Orderly.edits {u v : Underway} (hu : u.Orderly) (h : Edits u v) : v.Orderly := by
  induction h with
  | refl => exact hu
  | tail _ hedit ih => exact hedit.orderly ih

/-- The file scope is always in the tree. -/
theorem SymbolTable.Orderly.underway {t : SymbolTable} (h : t.Orderly) :
    Underway.Orderly ⟨t, [rootId]⟩ := by
  refine ⟨h, ?_⟩
  intro id hid
  rw [List.mem_singleton.1 hid, ← h.sound.root_id]
  exact Node.id_mem_ids _

/-! ### Restored tables -/

namespace SymbolTable

theorem edits_foldl {α : Type} {f : SymbolTable → α → SymbolTable} {opened : List Nat}
    (h : ∀ t a, Edit ⟨t, opened⟩ ⟨f t a, opened⟩) (items : List α) (t : SymbolTable) :
    Edits ⟨t, opened⟩ ⟨items.foldl f t, opened⟩ := by
  induction items generalizing t with
  | nil => exact .refl
  | cons a items ih => exact (ih (f t a)).head (h t a)

theorem edits_addAll {opened : List Nat} {id : Nat} (h : id ∈ opened) (t : SymbolTable)
    (symbols : List Symbol) (imports exports : List String) :
    Edits ⟨t, opened⟩ ⟨t.addAll id symbols imports exports, opened⟩ :=
  (edits_foldl (fun _ s => .addSymbol h s) symbols t).trans
    ((edits_foldl (fun _ name => .addImport h name) imports _).trans
      (edits_foldl (fun _ name => .addExport h name) exports _))

mutual

/-- To restore a container is to open it and to edit what it holds. -/
theorem edits_restore (c : Container) {opened : List Nat} {parent : Nat} (h : parent ∈ opened)
    (t : SymbolTable) :
    ∃ opened', opened ⊆ opened' ∧ Edits ⟨t, opened⟩ ⟨restore parent c t, opened'⟩ := by
  match c with
  | ⟨symbol, symbols, imports, exports, containers⟩ =>
    have hinner : (t.openContainer parent symbol).2 ∈
        (t.openContainer parent symbol).2 :: opened := List.mem_cons_self
    have hfill := edits_addAll hinner (t.openContainer parent symbol).1 symbols imports exports
    obtain ⟨opened', hsub, hrest⟩ := edits_restoreAll containers hinner
      ((t.openContainer parent symbol).1.addAll _ symbols imports exports)
    refine ⟨opened', fun i hi => hsub (List.mem_cons_of_mem _ hi), ?_⟩
    exact (hfill.head (.openContainer h symbol)).trans hrest

theorem edits_restoreAll (cs : List Container) {opened : List Nat} {parent : Nat}
    (h : parent ∈ opened) (t : SymbolTable) :
    ∃ opened', opened ⊆ opened' ∧ Edits ⟨t, opened⟩ ⟨restoreAll parent cs t, opened'⟩ := by
  match cs with
  | [] => exact ⟨opened, List.Subset.refl _, .refl⟩
  | c :: rest =>
    obtain ⟨opened', hsub, hc⟩ := edits_restore c h t
    obtain ⟨opened'', hsub', hrest⟩ := edits_restoreAll rest (hsub h) (restore parent c t)
    exact ⟨opened'', fun i hi => hsub' (hsub hi), hc.trans hrest⟩

end

theorem orderly_ofFileSymbols (file : FileSymbols) : (ofFileSymbols file).Orderly := by
  have hroot : rootId ∈ [rootId] := List.mem_singleton_self _
  have hfill := edits_addAll hroot empty file.symbols file.imports file.exports
  obtain ⟨opened, -, hrest⟩ := edits_restoreAll file.containers hroot
    (empty.addAll rootId file.symbols file.imports file.exports)
  exact (orderly_empty.underway.edits (hfill.trans hrest)).table

/-! ### Readings -/

/-- Whether a reading leads from a table to another one. -/
def Parsed (t t' : SymbolTable) : Prop := ∃ u, Edits (.start t) u ∧ t' = u.table.endParse

theorem Orderly.parsed {t t' : SymbolTable} (h : t.Orderly) (hp : Parsed t t') : t'.Orderly := by
  obtain ⟨u, hu, rfl⟩ := hp
  exact (h.beginParse.underway.edits hu).table.endParse

/-- Tables that come from nothing, or from restored symbols, by operations on scopes that they have,
be it in readings or not. -/
inductive Attainable : SymbolTable → Prop
  | empty : Attainable .empty
  | ofFileSymbols (file : FileSymbols) : Attainable (.ofFileSymbols file)
  | beginParse {t : SymbolTable} (h : Attainable t) : Attainable t.beginParse
  | endParse {t : SymbolTable} (h : Attainable t) : Attainable t.endParse
  | edit {t : SymbolTable} {scopes : List Nat} {v : Underway} (h : Attainable t)
      (hscopes : ∀ id ∈ scopes, id ∈ t.root.ids) (hedit : Edit ⟨t, scopes⟩ v) : Attainable v.table

theorem Attainable.orderly {t : SymbolTable} (h : t.Attainable) : t.Orderly := by
  induction h with
  | empty => exact orderly_empty
  | ofFileSymbols file => exact orderly_ofFileSymbols file
  | beginParse _ ih => exact ih.beginParse
  | endParse _ ih => exact ih.endParse
  | edit _ hscopes hedit ih => exact (hedit.orderly ⟨ih, hscopes⟩).table

/-- The scopes that a reading has opened are scopes of the table. -/
theorem Attainable.parsed {t t' : SymbolTable} (h : t.Attainable) (hp : Parsed t t') :
    t'.Attainable := by
  obtain ⟨u, hu, rfl⟩ := hp
  refine .endParse ?_
  induction hu with
  | refl => exact h.beginParse
  | tail hedits hedit ih =>
    exact ih.edit (h.orderly.beginParse.underway.edits hedits).opened hedit

end SymbolTable

end HdlIndex
