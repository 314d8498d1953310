import Mathlib.Data.List.Forall2
import HdlIndex.Proofs.Outline.Independence

/-! Outlines that differ in places and details only. What tells declarations apart are keys, and
besides these an outline has imports, exports and names of packages. Twins have alike acts, which
differ only by texts with a mark; but a text that is part of a container may disappear again, when
the container is declared once more. Main statement: if the outline of the second twin shows no
mark, that of the first has the same keys, imports, exports and packages. -/

namespace HdlIndex

/-! ### Rows -/

theorem any_once {α : Type} [DecidableEq α] {marked : α → Bool} {xs : List α} {x : α}
    (h : xs.any marked ∨ marked x) : (once xs x).any marked := by
  rw [List.any_eq_true]
  rcases h with h | h
  · obtain ⟨y, hy, hmarked⟩ := List.any_eq_true.1 h
    exact ⟨y, mem_once.2 (.inl hy), hmarked⟩
  · exact ⟨x, mem_once.2 (.inr rfl), h⟩

theorem EqualUnless.once {α : Type} [DecidableEq α] {marked : α → Bool} {xs ys : List α} {x y : α}
    (h : EqualUnless marked xs ys) (hx : x = y ∨ marked y) :
    EqualUnless marked (once xs x) (once ys y) := by
  rcases h with rfl | h
  · rcases hx with rfl | hx
    · exact .inl rfl
    · exact .inr (any_once (.inr hx))
  · exact .inr (any_once (.inl h))

theorem Scope.addOnce_eq (names : List String) (name : String) :
    Scope.addOnce names name = HdlIndex.once names name := by
  simp only [Scope.addOnce, HdlIndex.once, List.contains_iff_mem]

/-! ### Keys -/

/-- Whether the tag in a key shows a mark. -/
def keyShows (marked : String → Bool) (key : String × List String × List String) : Bool :=
  key.2.1.any marked

namespace Container

/-- What tells a container from others. -/
def key (c : Container) : String × List String × List String := c.symbol.key

mutual

/-- Whether two containers declare the same, at whatever depth: symbols with the same keys, and the
same imports and exports. -/
def SameKeys : Container → Container → Prop
  | ⟨s, ss, is, es, cs⟩, ⟨s', ss', is', es', cs'⟩ =>
    s.key = s'.key ∧ ss.map Symbol.key = ss'.map Symbol.key ∧ is = is' ∧ es = es' ∧
      SameKeysAll cs cs'

def SameKeysAll : List Container → List Container → Prop
  | [], [] => True
  | c :: cs, c' :: cs' => c.SameKeys c' ∧ SameKeysAll cs cs'
  | _, _ => False

end

mutual

/-- Whether a tag, an import or an export in a container shows a mark. -/
def shows (marked : String → Bool) : Container → Bool
  | ⟨s, ss, is, es, cs⟩ =>
    keyShows marked s.key || (ss.map Symbol.key).any (keyShows marked) || is.any marked ||
      es.any marked || showsAny marked cs

def showsAny (marked : String → Bool) : List Container → Bool
  | [] => false
  | c :: cs => c.shows marked || showsAny marked cs

end

mutual

theorem SameKeys.allSymbols (c c' : Container) (h : c.SameKeys c') :
    c.allSymbols.map Symbol.key = c'.allSymbols.map Symbol.key := by
  match c, c' with
  | ⟨s, ss, is, es, cs⟩, ⟨s', ss', is', es', cs'⟩ =>
    obtain ⟨hkey, hsymbols, -, -, hinner⟩ := h
    rw [Container.allSymbols, Container.allSymbols, List.map_cons, List.map_cons, List.map_append,
      List.map_append, hkey, hsymbols, SameKeysAll.allSymbolsOf cs cs' hinner]

theorem SameKeysAll.allSymbolsOf (cs cs' : List Container) (h : SameKeysAll cs cs') :
    (Container.allSymbolsOf cs).map Symbol.key = (Container.allSymbolsOf cs').map Symbol.key := by
  match cs, cs' with
  | [], [] => rfl
  | c :: cs, c' :: cs' =>
    rw [Container.allSymbolsOf, Container.allSymbolsOf, List.map_append, List.map_append,
      SameKeys.allSymbols c c' h.1, SameKeysAll.allSymbolsOf cs cs' h.2]

end

theorem map_key_put (c : Container) (cs : List Container) :
    (c.put cs).map key = once (cs.map key) c.key := by
  induction cs with
  | nil => rfl
  | cons d cs ih =>
    rw [put]
    split
    · next hsame =>
      have hkey : d.key = c.key := Symbol.sameKey_iff.1 hsame
      rw [List.map_cons, List.map_cons, hkey, once, if_pos List.mem_cons_self]
    · next hsame =>
      have hkey : c.key ≠ d.key := fun hkey => hsame (Symbol.sameKey_iff.2 hkey.symm)
      rw [List.map_cons, ih, List.map_cons, once, once]
      by_cases hmem : c.key ∈ cs.map key
      · rw [if_pos hmem, if_pos (List.mem_cons_of_mem _ hmem)]
      · rw [if_neg hmem, if_neg (by simp [hkey, hmem]), List.cons_append]

/-- Whether two containers have the same key, and declare the same if the second one shows no mark.
-/
structure Alike (marked : String → Bool) (c c' : Container) : Prop where
  key : c.key = c'.key
  sameKeys : c'.shows marked = false → c.SameKeys c'

/-- A container takes the place of the one of its key in both rows. -/
theorem forall₂_put {marked : String → Bool} {c c' : Container} {cs cs' : List Container}
    (hc : Alike marked c c') (h : List.Forall₂ (Alike marked) cs cs') :
    List.Forall₂ (Alike marked) (c.put cs) (c'.put cs') := by
  induction h with
  | nil => exact .cons hc .nil
  | @cons d d' cs cs' hd hrest ih =>
    have hsame : d.symbol.sameKey c.symbol = d'.symbol.sameKey c'.symbol :=
      Bool.eq_iff_iff.2 (by
        rw [Symbol.sameKey_iff, Symbol.sameKey_iff]
        show d.key = c.key ↔ d'.key = c'.key
        rw [hd.key, hc.key])
    rw [put, put, hsame]
    split
    · exact .cons hc hrest
    · exact .cons hd ih

end Container

/-! ### Contents -/

/-- Whether what a scope of one twin holds differs from what the scope of the other one holds only
by marks. -/
structure Contents.Alike (marked : String → Bool) (c c' : Contents) : Prop where
  symbols : EqualUnless (keyShows marked) (c.symbols.map Symbol.key) (c'.symbols.map Symbol.key)
  imports : EqualUnless marked c.imports c'.imports
  exports : EqualUnless marked c.exports c'.exports
  containers : List.Forall₂ (Container.Alike marked) c.containers c'.containers ∨
    (c'.containers.map Container.key).any (keyShows marked)

namespace Contents.Alike

variable {marked : String → Bool} {c c' : Contents}

theorem empty : Contents.Alike marked {} {} := ⟨.inl rfl, .inl rfl, .inl rfl, .inl .nil⟩

/-- Containers that show no mark and are alike declare the same. -/
theorem sameKeysAll {cs cs' : List Container} (h : List.Forall₂ (Container.Alike marked) cs cs')
    (hclean : Container.showsAny marked cs' = false) : Container.SameKeysAll cs cs' := by
  induction h with
  | nil => trivial
  | cons hd _ ih =>
    obtain ⟨hfirst, hrest⟩ := Bool.or_eq_false_iff.1 hclean
    exact ⟨hd.sameKeys hfirst, ih hrest⟩

theorem any_keyShows {cs : List Container} (hclean : Container.showsAny marked cs = false) :
    (cs.map Container.key).any (keyShows marked) = false := by
  induction cs with
  | nil => rfl
  | cons c cs ih =>
    obtain ⟨hfirst, hrest⟩ := Bool.or_eq_false_iff.1 hclean
    rw [List.map_cons, List.any_cons, ih hrest, Bool.or_false]
    obtain ⟨s, ss, is, es, cs⟩ := c
    simp only [Container.shows, Bool.or_eq_false_iff] at hfirst
    exact hfirst.1.1.1.1

theorem toContainer (h : Contents.Alike marked c c') {s s' : Symbol} (hkey : s.key = s'.key) :
    Container.Alike marked (c.toContainer s) (c'.toContainer s') where
  key := hkey
  sameKeys hclean := by
    simp only [Contents.toContainer, Container.shows, Bool.or_eq_false_iff] at hclean
    obtain ⟨⟨⟨⟨-, hsymbols⟩, himports⟩, hexports⟩, hcontainers⟩ := hclean
    refine ⟨hkey, h.symbols.eq hsymbols, h.imports.eq himports, h.exports.eq hexports, ?_⟩
    rcases h.containers with hall | hmarked
    · exact sameKeysAll hall hcontainers
    · exact absurd hmarked (by simp [any_keyShows hcontainers])

theorem put (h : Contents.Alike marked c c') {d d' : Container}
    (hd : d.key = d'.key → Container.Alike marked d d')
    (hkey : d.key = d'.key ∨ keyShows marked d'.key) :
    Contents.Alike marked { c with containers := d.put c.containers }
      { c' with containers := d'.put c'.containers } := by
  refine { h with containers := ?_ }
  show _ ∨ ((d'.put c'.containers).map Container.key).any _
  rw [Container.map_key_put]
  rcases hkey with hkey | hmarked
  · rcases h.containers with hall | hmarked
    · exact .inl (Container.forall₂_put (hd hkey) hall)
    · exact .inr (any_once (.inl hmarked))
  · exact .inr (any_once (.inr hmarked))

end Contents.Alike

/-! ### Acts -/

namespace Twin

variable {w : Twin}

/-- Symbols that are alike have the same key in the same place, unless there is a mark. -/
theorem SymbolAlike.key {s s' : Symbol} (h : w.SymbolAlike s s') (path : List String)
    (d d' : Definition) :
    { s with containerPath := path, definition := d }.key =
        { s' with containerPath := path, definition := d' }.key ∨
      keyShows w.Marked { s' with containerPath := path, definition := d' }.key := by
  refine h.kind.tag.imp (fun htag => ?_) id
  rw [Symbol.key, Symbol.key, htag, h.name]

/-- Alike acts do the same in scopes that hold the same, but for marks. -/
theorem ActsAlike.applyAll {acts acts' : List Act} (h : w.ActsAlike acts acts') (path : List String)
    {c c' : Contents} (hc : Contents.Alike w.Marked c c') :
    Contents.Alike w.Marked (Act.applyAll path acts c) (Act.applyAll path acts' c') := by
  induction h generalizing path c c' with
  | nil => exact hc
  | @declare s s' _ _ hsymbol _ ih =>
    refine ih path { hc with symbols := ?_ }
    show EqualUnless _ ((Symbol.upsert _ _).map _) ((Symbol.upsert _ _).map _)
    rw [Symbol.map_key_upsert, Symbol.map_key_upsert]
    exact hc.symbols.once (hsymbol.key path s.definition s'.definition)
  | importing hname _ ih =>
    refine ih path { hc with imports := ?_ }
    show EqualUnless _ (Scope.addOnce _ _) (Scope.addOnce _ _)
    rw [Scope.addOnce_eq, Scope.addOnce_eq]
    exact hc.imports.once hname
  | exporting hname _ ih =>
    refine ih path { hc with exports := ?_ }
    show EqualUnless _ (Scope.addOnce _ _) (Scope.addOnce _ _)
    rw [Scope.addOnce_eq, Scope.addOnce_eq]
    exact hc.exports.once hname
  | moreImporting hname _ ih =>
    refine ih path { hc with imports := .inr ?_ }
    show (Scope.addOnce _ _).any _
    rw [Scope.addOnce_eq]
    exact any_once (.inr hname)
  | moreExporting hname _ ih =>
    refine ih path { hc with exports := .inr ?_ }
    show (Scope.addOnce _ _).any _
    rw [Scope.addOnce_eq]
    exact any_once (.inr hname)
  | countAnonymous _ ih => exact ih path hc
  | @container s s' _ _ _ _ d d' hsymbol _ _ _ ihinner ih =>
    refine ih path (hc.put (fun hkey => ?_) (hsymbol.key path d d'))
    refine Contents.Alike.toContainer ?_ hkey
    rw [hsymbol.name]
    exact ihinner _ .empty

/-- What twins declare in front of their texts is alike if it is the same. -/
theorem actsAlike_declare (hsame : ¬w.same) (symbols : List Symbol) :
    w.ActsAlike (symbols.map .declare) (symbols.map .declare) := by
  induction symbols with
  | nil => exact .nil
  | cons s symbols ih => exact .declare ⟨rfl, rfl, .refl _, fun h => absurd h hsame⟩ ih

end Twin

/-! ### Outlines -/

namespace FileSymbols

structure SameKeys (file file' : FileSymbols) : Prop where
  symbols : file.symbols.map Symbol.key = file'.symbols.map Symbol.key
  imports : file.imports = file'.imports
  exports : file.exports = file'.exports
  containers : Container.SameKeysAll file.containers file'.containers

theorem SameKeys.allSymbols {file file' : FileSymbols} (h : file.SameKeys file') :
    file.allSymbols.map Symbol.key = file'.allSymbols.map Symbol.key := by
  rw [FileSymbols.allSymbols, FileSymbols.allSymbols, List.map_append, List.map_append, h.symbols,
    h.containers.allSymbolsOf]

/-- Whether a tag, an import or an export of a file shows a mark. -/
def shows (marked : String → Bool) (file : FileSymbols) : Bool :=
  (file.symbols.map Symbol.key).any (keyShows marked) || file.imports.any marked ||
    file.exports.any marked || Container.showsAny marked file.containers

end FileSymbols

namespace Outline

/-- Whether two outlines have the same keys, imports, exports and packages. -/
structure SameKeys (o o' : Outline) : Prop where
  symbols : o.symbols.SameKeys o'.symbols
  packages : o.packages = o'.packages

/-- Whether a tag, an import, an export or a package of an outline shows a mark. -/
def shows (marked : String → Bool) (o : Outline) : Bool :=
  o.symbols.shows marked || o.packages.any marked

theorem packagesOf_map_mapOffsets (f : Nat → Nat) (tokens : List OutlineToken) :
    packagesOf (tokens.map (·.mapOffsets f)) = packagesOf tokens := by
  rw [packagesOf, packagesOf, List.filter_map, List.foldl_map]
  rfl

/-- Twins whose second outline shows no mark have the same declarations. -/
theorem sameKeys_of_twin (w : Twin) (hsame : ¬w.same) {p q : Preprocessed}
    (hdoc : w.doc = .ofPreprocessed q) (hdoc' : w.doc' = .ofPreprocessed p)
    (hsymbols : q.symbols = p.symbols) {limits : Limits} (hzero : w.shift 0 = 0)
    (htokens : tokensOf p limits = (tokensOf q limits).map (·.mapOffsets w.shift))
    (hstands : (Cursor.start (tokensOf q limits)).Stands w.At) {t t' : SymbolTable}
    (ht : t.Sound) (ht' : t'.Sound)
    (hclean : (read p limits t').1.shows w.Marked = false) :
    (read q limits t).1.SameKeys (read p limits t').1 := by
  have hstart : w.Meets (startOf q (tokensOf q limits) t) (startOf p (tokensOf p limits) t') := by
    refine ⟨?_, hstands, .inl ?_, fun h => absurd h hsame, ?_, List.cons_ne_nil _ _,
      List.cons_ne_nil _ _⟩
    · simp only [startOf, Cursor.start, Cursor.mapOffsets, hzero, htokens]
    · simp only [startOf, htokens, packagesOf_map_mapOffsets]
    · simp only [startOf, SymbolTable.addAll_eq, Act.anonymous_performAll, hsymbols]
      rfl
  obtain ⟨hmeets, acts, acts', halike, hd, hd'⟩ := Twin.match_run _ _ hstart
  rw [hdoc] at hmeets hd
  rw [hdoc'] at hmeets hd'
  have hq : (resultOf q limits t).table =
      Act.performAll SymbolTable.rootId (q.symbols.map .declare ++ acts) t.beginParse := by
    rw [Act.performAll_append, ← table_startOf q (tokensOf q limits)]
    exact hd.table
  have hp : (resultOf p limits t').table =
      Act.performAll SymbolTable.rootId (p.symbols.map .declare ++ acts') t'.beginParse := by
    rw [Act.performAll_append, ← table_startOf p (tokensOf p limits)]
    exact hd'.table
  rw [hsymbols] at hq
  have hcontents := ((Twin.actsAlike_declare hsame p.symbols).append halike).applyAll [] .empty
  obtain ⟨hfile, hpackages⟩ := Bool.or_eq_false_iff.1 hclean
  refine ⟨?_, hmeets.packages.eq hpackages⟩
  rw [symbols_read ht' hp, FileSymbols.shows] at hfile
  simp only [Bool.or_eq_false_iff] at hfile
  obtain ⟨⟨⟨hkeys, himports⟩, hexports⟩, hcontainers⟩ := hfile
  rw [symbols_read ht hq, symbols_read ht' hp]
  refine ⟨hcontents.symbols.eq hkeys, hcontents.imports.eq himports, hcontents.exports.eq hexports, ?_⟩
  rcases hcontents.containers with hall | hmarked
  · exact Contents.Alike.sameKeysAll hall hcontainers
  · exact absurd hmarked (by simp [Contents.Alike.any_keyShows hcontainers])

end Outline

end HdlIndex
