import Mathlib.Data.List.Nodup
import HdlIndex.Proofs.Grammar.Spelled
import HdlIndex.Proofs.Outline.Storage

/-! What tells the symbols of one outline apart. The key of a symbol has its name, its tag and the
names of the containers around it, but not the kinds of these. So two containers of one scope may
share a name, such as a package and a module, and what is in them then has the same path. Nothing
else brings a key about twice: a scope has each key once among its leaves and once among its
containers, a leaf is never of a kind that has a scope, and paths through containers of different
names differ. Main statement: no two symbols of an outline, at whatever depth, have one key if and
only if containers of one scope that share a name hold no key in common. -/

namespace HdlIndex

namespace Container

mutual

/-- Whether a container and all containers in it are of kinds that have a scope, and the leaves of
their scopes are of other kinds. -/
def RespectsKinds : Container → Prop
  | ⟨symbol, symbols, _, _, containers⟩ =>
    symbol.kind.isContainer = true ∧ (∀ s ∈ symbols, s.kind.isContainer = false) ∧
      RespectKinds containers

def RespectKinds : List Container → Prop
  | [] => True
  | c :: rest => c.RespectsKinds ∧ RespectKinds rest

end

theorem respectKinds_put {c : Container} {cs : List Container} (hc : c.RespectsKinds)
    (h : RespectKinds cs) : RespectKinds (c.put cs) := by
  induction cs with
  | nil => exact ⟨hc, trivial⟩
  | cons d rest ih =>
    rw [put]
    split
    · exact ⟨hc, h.2⟩
    · exact ⟨h.1, ih h.2⟩

theorem RespectsKinds.symbol {c : Container} (h : c.RespectsKinds) :
    c.symbol.kind.isContainer = true := by
  obtain ⟨symbol, symbols, imports, exports, containers⟩ := c
  exact h.1

theorem respectsKinds_of_mem {c : Container} {cs : List Container} (h : RespectKinds cs)
    (hc : c ∈ cs) : c.RespectsKinds := by
  induction cs with
  | nil => cases hc
  | cons d rest ih =>
    rcases List.mem_cons.1 hc with rfl | hc
    · exact h.1
    · exact ih h.2 hc

end Container

/-- Whether what a scope holds stands there as a leaf or as a container according to its kind. -/
structure Contents.RespectsKinds (c : Contents) : Prop where
  symbols : ∀ s ∈ c.symbols, s.kind.isContainer = false
  containers : Container.RespectKinds c.containers

namespace Act

theorem respectsKinds_empty : Contents.RespectsKinds {} where
  symbols := by simp
  containers := trivial

mutual

theorem respectsKinds_apply (a : Act) {path : List String} {c : Contents} (ha : a.RespectsKinds)
    (h : c.RespectsKinds) : (a.apply path c).RespectsKinds := by
  match a with
  | .declare symbol =>
    refine { h with symbols := fun s hs => ?_ }
    rcases Symbol.eq_or_mem_of_mem_upsert hs with rfl | hs
    · exact ha
    · exact h.symbols s hs
  | .importing name => exact ⟨h.symbols, h.containers⟩
  | .exporting name => exact ⟨h.symbols, h.containers⟩
  | .countAnonymous => exact h
  | .container symbol acts definition =>
    have hinner : (applyAll (path ++ [symbol.name]) acts {}).RespectsKinds :=
      respectsKinds_applyAll acts ha.2 respectsKinds_empty
    exact { h with
      containers := Container.respectKinds_put ⟨ha.1, hinner.symbols, hinner.containers⟩
        h.containers }

theorem respectsKinds_applyAll (acts : List Act) {path : List String} {c : Contents}
    (ha : RespectKinds acts) (h : c.RespectsKinds) : (applyAll path acts c).RespectsKinds := by
  match acts with
  | [] => exact h
  | a :: acts => exact respectsKinds_applyAll acts ha.2 (respectsKinds_apply a ha.1 h)

end

end Act

/-! ### Paths -/

namespace Container

variable {path : List String} {s : Symbol}

/-- Everything in the scope of a container, at whatever depth. -/
def members (c : Container) : List Symbol := c.symbols ++ allSymbolsOf c.containers

theorem allSymbols_eq (c : Container) : c.allSymbols = c.symbol :: c.members := by
  obtain ⟨symbol, symbols, imports, exports, containers⟩ := c
  rfl

theorem mem_allSymbolsOf {cs : List Container} :
    s ∈ allSymbolsOf cs ↔ ∃ c ∈ cs, s = c.symbol ∨ s ∈ c.members := by
  induction cs with
  | nil => simp [allSymbolsOf]
  | cons c rest ih => simp [allSymbolsOf, allSymbols_eq, ih, or_assoc]

theorem written_of_mem {c : Container} {cs : List Container} (h : WrittenAll path cs)
    (hc : c ∈ cs) : c.Written path := by
  induction cs with
  | nil => cases hc
  | cons d rest ih =>
    rcases List.mem_cons.1 hc with rfl | hc
    · exact h.1
    · exact ih h.2 hc

theorem Written.symbol {c : Container} (h : c.Written path) : c.symbol.containerPath = path := by
  obtain ⟨symbol, symbols, imports, exports, containers⟩ := c
  exact h.1.path

mutual

/-- What stands in a container has the name of the container in its path. -/
theorem path_of_mem_members (c : Container) {path : List String} (h : c.Written path)
    (hs : s ∈ c.members) : path ++ [c.symbol.name] <+: s.containerPath := by
  match c with
  | ⟨symbol, symbols, imports, exports, containers⟩ =>
    rcases List.mem_append.1 hs with hs | hs
    · exact (h.2.1 s hs).path ▸ List.prefix_rfl
    · exact path_of_mem_allSymbolsOf containers h.2.2 hs

theorem path_of_mem_allSymbolsOf (cs : List Container) {path : List String}
    (h : WrittenAll path cs) (hs : s ∈ allSymbolsOf cs) : path <+: s.containerPath := by
  match cs with
  | [] => cases hs
  | c :: rest =>
    rw [allSymbolsOf, allSymbols_eq] at hs
    rcases List.mem_append.1 hs with hs | hs
    · rcases List.mem_cons.1 hs with rfl | hs
      · exact h.1.symbol ▸ List.prefix_rfl
      · exact (List.prefix_append _ _).trans (path_of_mem_members c h.1 hs)
    · exact path_of_mem_allSymbolsOf rest h.2 hs

end

/-- A path that goes on behind another one is not the same. -/
theorem not_prefix_self (path : List String) (name : String) : ¬path ++ [name] <+: path := by
  intro h
  have hlength := h.length_le
  rw [List.length_append, List.length_singleton] at hlength
  omega

end Container

theorem Symbol.path_eq_of_key_eq {s t : Symbol} (h : s.key = t.key) :
    s.containerPath = t.containerPath := congrArg (·.2.2) h

/-! ### Keys -/

namespace Container

variable {path : List String} {cs : List Container}

/-- A leaf of a scope differs from the containers of the scope in its kind, and from what is in them
in its path. -/
theorem key_leaf_ne {s t : Symbol} (hs : s.containerPath = path)
    (hleaf : s.kind.isContainer = false) (hw : WrittenAll path cs) (hk : RespectKinds cs)
    (ht : t ∈ allSymbolsOf cs) : s.key ≠ t.key := by
  intro hkey
  obtain ⟨c, hc, rfl | ht⟩ := mem_allSymbolsOf.1 ht
  · have htag : s.kind.tag = c.symbol.kind.tag := congrArg (·.2.1) hkey
    rw [SymbolKind.isContainer_of_tag_eq htag, (respectsKinds_of_mem hk hc).symbol] at hleaf
    cases hleaf
  · have hpath := path_of_mem_members c (written_of_mem hw hc) ht
    rw [← Symbol.path_eq_of_key_eq hkey, hs] at hpath
    exact not_prefix_self path _ hpath

/-- In a scope whose leaves have different keys, a key stands twice only if it does so in the
containers. -/
theorem nodup_scope_iff {symbols : List Symbol} (hs : ∀ s ∈ symbols, s.Written path)
    (hleaves : ∀ s ∈ symbols, s.kind.isContainer = false)
    (hkeys : (symbols.map Symbol.key).Nodup) (hw : WrittenAll path cs) (hk : RespectKinds cs) :
    ((symbols ++ allSymbolsOf cs).map Symbol.key).Nodup ↔
      ((allSymbolsOf cs).map Symbol.key).Nodup := by
  rw [List.map_append, List.nodup_append]
  refine ⟨fun h => h.2.1, fun h => ⟨hkeys, h, ?_⟩⟩
  rintro _ hleaf _ hinner rfl
  obtain ⟨s, hmem, rfl⟩ := List.mem_map.1 hleaf
  obtain ⟨t, ht, hkey⟩ := List.mem_map.1 hinner
  exact key_leaf_ne (hs s hmem).path (hleaves s hmem) hw hk ht hkey.symm

/-- A container differs in its path from everything inside the containers of its scope. -/
theorem key_symbol_ne {c d : Container} {s : Symbol} (hc : c.Written path) (hd : d.Written path)
    (hs : s ∈ d.members) : c.symbol.key ≠ s.key := by
  intro hkey
  have hpath := path_of_mem_members d hd hs
  rw [← Symbol.path_eq_of_key_eq hkey, hc.symbol] at hpath
  exact not_prefix_self path _ hpath

/-- What is in containers of different names differs in its path. -/
theorem name_eq_of_key_eq {c d : Container} {s t : Symbol} (hc : c.Written path)
    (hd : d.Written path) (hs : s ∈ c.members) (ht : t ∈ d.members) (hkey : s.key = t.key) :
    d.symbol.name = c.symbol.name := by
  have hpath := path_of_mem_members c hc hs
  have hpath' := path_of_mem_members d hd ht
  rw [← Symbol.path_eq_of_key_eq hkey] at hpath'
  have heq := (List.prefix_of_prefix_length_le hpath' hpath (by simp)).eq_of_length (by simp)
  simpa using heq

theorem nodup_allSymbols_iff {c : Container} (hc : c.Written path) :
    (c.allSymbols.map Symbol.key).Nodup ↔ (c.members.map Symbol.key).Nodup := by
  rw [allSymbols_eq, List.map_cons, List.nodup_cons]
  refine ⟨fun h => h.2, fun h => ⟨?_, h⟩⟩
  intro hmem
  obtain ⟨s, hs, hkey⟩ := List.mem_map.1 hmem
  exact key_symbol_ne hc hc hs hkey.symm

mutual

/-- Whether containers of one scope that share a name hold no key in common, in the scope of a
container and in all scopes below. -/
def Apart : Container → Prop
  | ⟨_, _, _, _, containers⟩ => ApartAll containers

def ApartAll : List Container → Prop
  | [] => True
  | c :: rest =>
    (∀ d ∈ rest, d.symbol.name = c.symbol.name →
      (c.members.map Symbol.key).Disjoint (d.members.map Symbol.key)) ∧
    c.Apart ∧ ApartAll rest

end

/-- A container has a key in common with the ones behind it only if one of them has its name and they
hold the key both. -/
theorem disjoint_iff {c : Container} {rest : List Container} (hw : WrittenAll path (c :: rest))
    (hd : DistinctAll (c :: rest)) :
    (c.allSymbols.map Symbol.key).Disjoint ((allSymbolsOf rest).map Symbol.key) ↔
      ∀ d ∈ rest, d.symbol.name = c.symbol.name →
        (c.members.map Symbol.key).Disjoint (d.members.map Symbol.key) := by
  constructor
  · intro h d hmem _ key hc hrest
    obtain ⟨s, hs, rfl⟩ := List.mem_map.1 hc
    obtain ⟨t, ht, hkey⟩ := List.mem_map.1 hrest
    refine h (List.mem_map.2 ⟨s, ?_, rfl⟩) (List.mem_map.2 ⟨t, ?_, hkey⟩)
    · rw [allSymbols_eq]
      exact List.mem_cons_of_mem _ hs
    · exact mem_allSymbolsOf.2 ⟨d, hmem, .inr ht⟩
  · intro h key hc hrest
    obtain ⟨s, hs, rfl⟩ := List.mem_map.1 hc
    obtain ⟨t, ht, hkey⟩ := List.mem_map.1 hrest
    obtain ⟨d, hmem, ht⟩ := mem_allSymbolsOf.1 ht
    have hdw := written_of_mem hw.2 hmem
    rw [allSymbols_eq] at hs
    rcases List.mem_cons.1 hs with rfl | hs
    · rcases ht with rfl | ht
      · exact hd.1 d hmem hkey
      · exact key_symbol_ne hw.1 hdw ht hkey.symm
    · rcases ht with rfl | ht
      · exact key_symbol_ne hdw hw.1 hs hkey
      · exact h d hmem (name_eq_of_key_eq hw.1 hdw hs ht hkey.symm) (List.mem_map_of_mem hs)
          (hkey ▸ List.mem_map_of_mem ht)

mutual

theorem nodup_members_iff (c : Container) {path : List String} (hw : c.Written path)
    (hd : c.Distinct) (hk : c.RespectsKinds) :
    (c.members.map Symbol.key).Nodup ↔ c.Apart := by
  match c with
  | ⟨symbol, symbols, imports, exports, containers⟩ =>
    obtain ⟨-, hleaves, hkinds⟩ := hk
    exact (nodup_scope_iff hw.2.1 hleaves hd.1 hw.2.2 hkinds).trans
      (nodup_allSymbolsOf_iff containers hw.2.2 hd.2.2.2 hkinds)

/-- The keys of all symbols differ if and only if namesakes are apart. -/
theorem nodup_allSymbolsOf_iff (cs : List Container) {path : List String}
    (hw : WrittenAll path cs) (hd : DistinctAll cs) (hk : RespectKinds cs) :
    ((allSymbolsOf cs).map Symbol.key).Nodup ↔ ApartAll cs := by
  match cs with
  | [] => exact iff_of_true .nil trivial
  | c :: rest =>
    rw [allSymbolsOf, List.map_append, List.nodup_append', disjoint_iff hw hd,
      nodup_allSymbols_iff hw.1, nodup_members_iff c hw.1 hd.2.1 hk.1,
      nodup_allSymbolsOf_iff rest hw.2 hd.2.2 hk.2, ApartAll]
    tauto

end

end Container

/-- Whether containers of one scope of a file that share a name hold no key in common. -/
def FileSymbols.Apart (file : FileSymbols) : Prop := Container.ApartAll file.containers

/-! ### Outlines -/

theorem Outline.nodup_keys_read_iff {p : Preprocessed} (hp : ∀ s ∈ p.symbols, s.IsMacro)
    (limits : Limits) {t : SymbolTable} (h : t.Sound) :
    ((read p limits t).1.symbols.allSymbols.map Symbol.key).Nodup ↔
      (read p limits t).1.symbols.Apart := by
  obtain ⟨acts, hextents, hkinds, hsymbols⟩ := exists_symbols_eq hp limits h
  have htidy := Act.tidy_applyAll acts hextents (Act.tidy_empty [])
  have hrespects : (Act.applyAll [] acts {}).RespectsKinds :=
    Act.respectsKinds_applyAll acts hkinds Act.respectsKinds_empty
  rw [hsymbols]
  exact (Container.nodup_scope_iff htidy.symbols hrespects.symbols htidy.keys htidy.containers
    hrespects.containers).trans
      (Container.nodup_allSymbolsOf_iff _ htidy.containers htidy.distinct hrespects.containers)

namespace Session

/-- Whatever the state of a session, and whatever was done to a table before a document is read into
it, no two symbols of the outline have one key if and only if containers of one scope that share a
name hold no key in common. -/
theorem nodup_keys_iff_apart (s : Session) {t : SymbolTable} (h : t.Attainable)
    (file text : String) :
    ((s.outlineInto t file text).1.symbols.allSymbols.map Symbol.key).Nodup ↔
      (s.outlineInto t file text).1.symbols.Apart :=
  Outline.nodup_keys_read_iff (Preprocess.isMacro_document s.env s.cache file text)
    s.options.limits h.orderly.sound

theorem outline_fst (s : Session) (file text : String) :
    (s.outline file text).1 = (s.outlineInto .empty file text).1 := rfl

/-- A package and a module of one name, each with a net of one name. -/
def namesakes : String := "package p; wire w; endpackage\nmodule p; wire w; endmodule\n"

theorem keys_namesakes :
    (withoutFiles.outline "/a.sv" namesakes).1.symbols.allSymbols.map Symbol.key =
      [("p", ["package"], []), ("w", ["net", "wire"], ["p"]),
        ("p", ["module"], []), ("w", ["net", "wire"], ["p"])] := by
  show ((Outline.read (withoutFiles.preprocess "/a.sv" namesakes).1 withoutFiles.options.limits
    .empty).1.symbols.allSymbols.map Symbol.key) = _
  unfold Outline.read
  rw [Grammar.structural_eq_inPieces]
  decide +kernel

/-- The two nets have one key, so the package and the module are not apart. -/
theorem not_apart_namesakes :
    SymbolTable.empty.Attainable ∧
      ¬(withoutFiles.outlineInto .empty "/a.sv" namesakes).1.symbols.Apart := by
  refine ⟨.empty, fun h => ?_⟩
  have hnodup := (nodup_keys_iff_apart withoutFiles .empty "/a.sv" namesakes).2 h
  rw [← outline_fst, keys_namesakes] at hnodup
  exact absurd hnodup (by decide)

/-- The key of a symbol need not be its own. -/
theorem not_nodup_keys :
    ¬((withoutFiles.outline "/a.sv" namesakes).1.symbols.allSymbols.map Symbol.key).Nodup := by
  rw [keys_namesakes]
  decide

end Session

end HdlIndex
