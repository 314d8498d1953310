import HdlIndex.Proofs.Grammar.Spelled
import HdlIndex.Proofs.Outline.Members
import HdlIndex.Proofs.Outline.Stretches
import HdlIndex.Proofs.Outline.Tokens
import HdlIndex.Proofs.Position
import HdlIndex.Proofs.Preprocess.Plain

/-! Declarations inside declarations. Where a stretch of a reading declares something is known from the
tokens that it reads, and in a document without directives these tokens are places in the text, so the
order of the tokens is that of the places. Main statements: in such a document every definition is one
stretch of the text and lies within the definition of the container around it, and the name of every
symbol lies in its definition, unless it is the name of an alias of a body that has the end of a region
in it. -/

namespace HdlIndex

/-! ### Places in a text -/

/-- Whether a definition is a stretch of a text, inside another one. -/
def Definition.WithinStretch (text : String) (d outer : Definition) : Prop :=
  ∃ start stop first last, d = .single (Text.range text start stop) ∧
    outer = .single (Text.range text first last) ∧ first ≤ start ∧ start ≤ stop ∧ stop ≤ last ∧
      last ≤ text.utf8ByteSize

namespace OutlineToken

/-- The place of a token in a text. -/
def placeIn (text : String) (t : OutlineToken) : Range :=
  Text.range text (Text.startAround text t.start) (Text.stopAround text t.stop)

/-- Whether a token is the name that is looked up behind a body with the end of a region in it, so that
the reading of the body stops in front of the name. -/
def IsOverlooked (tokens : List OutlineToken) (kind : SymbolKind) (name : OutlineToken) : Prop :=
  ∃ (keyword : OutlineToken) (body : List OutlineToken) (c : Cursor),
    (Cursor.start tokens).Ahead c ∧ c.Reads (keyword :: body) c.behindBody ∧
      c.behindBody.identifier? = some name ∧
      (keyword.role = .aggregate ∨ keyword.role = .enumeration) ∧
      kind = .typeAlias keyword.text ∧ ∃ t ∈ body, t.isRegionEnd = true

end OutlineToken

/-- Whether a token that names a symbol lies in the definition of the symbol. The name of an alias may
come behind the definition. -/
def Symbol.NamedWithin (text : String) (tokens : List OutlineToken) (s : Symbol) : Prop :=
  ∃ name ∈ tokens, s.declaration = some ⟨none, name.placeIn text⟩ ∧ name.start < name.stop ∧
    ∃ start stop, s.definition = .single (Text.range text start stop) ∧
      start ≤ Text.startAround text name.start ∧
      (Text.stopAround text name.stop ≤ stop ∨ name.IsOverlooked tokens s.kind)

/-- What a reading says of the place of a symbol in a container. -/
structure Symbol.Placed (text : String) (tokens : List OutlineToken) (s : Symbol)
    (outer : Definition) : Prop where
  within : s.definition.WithinStretch text outer
  named : s.NamedWithin text tokens

theorem Symbol.Placed.inPath {text : String} {tokens : List OutlineToken} {s : Symbol}
    {outer : Definition} (path : List String) (h : s.Placed text tokens outer) :
    { s with containerPath := path }.Placed text tokens outer :=
  ⟨h.within, h.named⟩

/-- What it is to read tokens of a document that is a text as it stands. -/
structure Document.Shows (doc : Document) (text : String) (tokens : List OutlineToken) : Prop where
  mirrors : doc.Mirrors text
  inOrder : (Cursor.start tokens).InOrder doc.text.utf8ByteSize
  ends : ∀ t ∈ tokens, t.misleads = true → t.isRegionEnd = true

namespace Reading

variable {doc : Document} {text : String} {tokens : List OutlineToken} {front start stop : Cursor}
  {t : OutlineToken} {first last : Nat}

section Shows

open Text

variable (hd : doc.Shows text tokens)
include hd

/-- A definition that a token is read of is a stretch of the text. -/
theorem definition_eq (hstart : (Cursor.start tokens).Ahead start) (ht : start.Between t stop) :
    doc.origins.definition start.nextStart stop.stop =
      .single (Text.range text (startAround text start.nextStart) (stopAround text stop.stop)) := by
  have hbetween := (hd.inOrder.ahead hstart).between ht
  exact hd.mirrors.definition _ _ (by omega) ((hd.inOrder.ahead hstart).ahead ht.ahead).le

theorem location_eq (hstart : (Cursor.start tokens).Ahead start) (ht : start.Between t stop) :
    doc.origins.location t.start t.stop = some ⟨none, t.placeIn text⟩ := by
  have hbetween := (hd.inOrder.ahead hstart).between ht
  have hle := ((hd.inOrder.ahead hstart).ahead ht.ahead).le
  exact hd.mirrors.location _ _ hbetween.2.1 (by omega)

theorem withinStretch_definition (hfront : (Cursor.start tokens).Ahead front)
    (hstart : front.Ahead start) (ht : start.Between t stop)
    (hfirst : first ≤ startAround text front.nextStart) (hlast : stopAround text stop.stop ≤ last)
    (hsize : last ≤ text.utf8ByteSize) :
    (doc.origins.definition start.nextStart stop.stop).WithinStretch text
      (.single (Text.range text first last)) := by
  have hrest : start.rest ≠ [] := List.ne_nil_of_mem ht.mem_rest
  have hnext := startAround_mono text ((hd.inOrder.ahead hfront).nextStart_le hstart hrest)
  have hbetween := (hd.inOrder.ahead (hfront.trans hstart)).between ht
  have hle := startAround_le text start.nextStart
  have hge := le_stopAround text stop.stop
  exact ⟨_, _, first, last, definition_eq hd (hfront.trans hstart) ht, rfl, by omega, by omega,
    hlast, hsize⟩

/-- The name of a declaration is read in it, or overlooked. -/
theorem namedWithin_of_between (hstart : (Cursor.start tokens).Ahead start)
    (hread : start.Between t stop) {next : Cursor} {name : OutlineToken}
    (hname : start.Between name next) {s : Symbol}
    (hdefinition : s.definition = doc.origins.definition start.nextStart stop.stop)
    (hplace : s.declaration = doc.origins.location name.start name.stop)
    (hwithin : next = stop ∨ name.IsOverlooked tokens s.kind) : s.NamedWithin text tokens := by
  have hbetween := (hd.inOrder.ahead hstart).between hname
  have hmem : start.rest ⊆ tokens := by
    obtain ⟨front, hfront⟩ := hstart
    rw [show tokens = front ++ start.rest from hfront.rest]
    exact List.subset_append_right _ _
  rw [definition_eq hd hstart hread] at hdefinition
  rw [location_eq hd hstart hname] at hplace
  refine ⟨name, hmem hname.mem_rest, hplace, hbetween.2.1, _, _, hdefinition,
    startAround_mono text hbetween.1, hwithin.imp_left ?_⟩
  rintro rfl
  exact stopAround_mono text hbetween.2.2

theorem isOverlooked_of_namedBeyond (hstart : (Cursor.start tokens).Ahead start)
    {name : OutlineToken} {kind : SymbolKind} (h : start.NamedBeyond name kind stop) :
    name.IsOverlooked tokens kind := by
  obtain ⟨keyword, body, c, hc, hreads, hname, hrole, hkind, ⟨t, ht, hmisleads⟩, -⟩ := h
  refine ⟨keyword, body, c, hstart.trans hc, hreads, hname, hrole, hkind, t, ht, ?_⟩
  obtain ⟨front, hfront⟩ := hstart.trans hc
  have htokens : tokens = front ++ (keyword :: body ++ c.behindBody.rest) := by
    rw [← hreads.rest]
    exact hfront.rest
  exact hd.ends t (by simp [htokens, ht]) hmisleads

/-- Everything that a stretch declares lies between the places where it starts and stops, and in each
container of it lies what is declared there. -/
theorem Stretch.placed {r s : Reading} {acts : List Act} (h : Stretch doc front r acts s)
    (hfront : (Cursor.start tokens).Ahead front) (hr : (Cursor.start tokens).Ahead r.cursor)
    {first last : Nat} (hfirst : first ≤ startAround text front.nextStart)
    (hlast : stopAround text s.cursor.stop ≤ last) (hsize : last ≤ text.utf8ByteSize) :
    Act.ForEachOf (Symbol.Placed text tokens) (.single (Text.range text first last)) acts := by
  induction h generalizing first last with
  | refl => trivial
  | move h hcursor _ _ ih =>
    have hstop := stopAround_mono text ((hd.inOrder.ahead (hr.trans h.ahead)).stop_le hcursor)
    exact ih hfront hr hfirst (Nat.le_trans hstop hlast) hsize
  | @note _ _ _ _ _ a ha ih =>
    refine Act.forEachOf_append (ih hfront hr hfirst hlast hsize) ⟨?_, trivial⟩
    cases a with
    | declare | container => exact ha.elim
    | importing | exporting | countAnonymous => trivial
  | declare _ kind hstart hname ih =>
    refine Act.forEachOf_append (ih hfront hr hfirst hlast hsize) ⟨⟨?_, ?_⟩, trivial⟩
    · exact withinStretch_definition hd hfront hstart hname hfirst hlast hsize
    · exact namedWithin_of_between hd (hfront.trans hstart) hname hname rfl rfl (.inl rfl)
  | @container front r s u acts inner h start name symbol hplace hstart hopen hinner hname ih ih' =>
    rw [cursor_leave] at hlast
    have hs := hr.trans h.ahead
    have hu : (s.enter symbol).cursor.Ahead u.cursor := hinner.ahead
    have hstop := stopAround_mono text ((hd.inOrder.ahead hs).stop_le hu)
    have hsize' := Nat.le_trans (hd.inOrder.ahead (hs.trans hu)).le hd.mirrors.size
    have hstart' := hfront.trans hstart
    obtain ⟨t, hread⟩ : ∃ t, start.Between t u.cursor :=
      hname.elim (fun hname => ⟨name, hname⟩) (·.exists_between)
    refine Act.forEachOf_append (ih hfront hr hfirst (Nat.le_trans hstop hlast) hsize)
      ⟨⟨⟨?_, ?_⟩, ?_⟩, trivial⟩
    · exact withinStretch_definition hd hfront hstart hread hfirst hlast hsize
    · rcases hname with hname | hname
      · exact namedWithin_of_between hd hstart' hread hname rfl hplace (.inl rfl)
      · obtain ⟨next, hnext⟩ := hname.exists_between_name
        exact namedWithin_of_between hd hstart' hread hnext rfl hplace
          (.inr (isOverlooked_of_namedBeyond hd hstart' hname))
    · rw [definition_eq hd hstart' hread]
      exact ih' hstart' hs (Nat.le_refl _) (Nat.le_refl _) (stopAround_le text hsize')

end Shows

end Reading

/-! ### Outlines -/

namespace Outline

variable {text : String} (h : Text.IsPlain text) (env : Preprocess.Env) (cache : IncludeCache)
  (file : String) (limits : Limits)
include h

theorem shows_tokensOf :
    (Document.ofPreprocessed (Preprocess.document env cache file text).1).Shows text
      (tokensOf (Preprocess.document env cache file text).1 limits) where
  mirrors := (Preprocess.mirrors_document h env cache file).2.1
  inOrder := (OutlineToken.inOrder_significant _).take _
  ends := fun _ ht => OutlineToken.isRegionEnd_of_misleads (List.mem_of_mem_take ht)

theorem placed_read {t : SymbolTable} (ht : t.Sound) :
    (read (Preprocess.document env cache file text).1 limits t).1.symbols.ForEach
      (Symbol.Placed text (tokensOf (Preprocess.document env cache file text).1 limits))
      (.single (Text.range text 0 text.utf8ByteSize)) := by
  have hshows := shows_tokensOf h env cache file limits
  obtain ⟨hsymbols, -⟩ := Preprocess.mirrors_document h env cache file
  generalize (Preprocess.document env cache file text).1 = p at hshows hsymbols ⊢
  have hrun : Reading.Leads (.ofPreprocessed p) (startOf p (tokensOf p limits) t).cursor
      (startOf p (tokensOf p limits) t) (resultOf p limits t) := Reading.leads_run _
  obtain ⟨-, acts, hstretch⟩ := hrun
  have hsize := Nat.le_trans (hshows.inOrder.ahead hstretch.ahead).le hshows.mirrors.size
  have hacts := hstretch.placed hshows (.refl _) (.refl _) (Nat.zero_le _)
    (Text.stopAround_le text hsize) (Nat.le_refl _)
  -- What the acts leave behind in the empty file is what is read.
  have htable : (resultOf p limits t).table =
      Act.performAll SymbolTable.rootId acts t.beginParse := by
    rw [(hstretch.scopes_table (List.cons_ne_nil _ _)).2, table_startOf, hsymbols]
    rfl
  have hfile : (read p limits t).1.symbols = (read p limits t).2.toFileSymbols p.includes := rfl
  rw [hfile, SymbolTable.toFileSymbols_eq, read_table, htable, (ht.contents_endParse acts).2]
  have hempty : ∀ s ∈ ({} : Contents).symbols,
      s.Placed text (tokensOf p limits) (.single (Text.range text 0 text.utf8ByteSize)) := by simp
  obtain ⟨hleaves, hcontainers⟩ :=
    Act.forEach_applyAll (fun _ path _ hs => hs.inPath path) acts [] hacts hempty trivial
  exact ⟨hleaves, hcontainers⟩

/-- The tokens of a text that is too large are not read. -/
theorem size_le_of_mem_tokensOf {t : OutlineToken}
    (ht : t ∈ tokensOf (Preprocess.document env cache file text).1 limits) :
    text.utf8ByteSize ≤ env.options.limits.fileSize := by
  refine (Preprocess.mirrors_document h env cache file).2.2.resolve_left fun hempty => ?_
  have hbounds := OutlineToken.InOrder.of_mem
    (OutlineToken.inOrder_significant _) (List.mem_of_mem_take ht)
  rw [hempty] at hbounds
  have hzero : "".utf8ByteSize = 0 := rfl
  omega

end Outline

/-! ### Places -/

/-- Whether a definition is one range, from a place to one that is not in front of it, inside that of
another definition. -/
def Definition.Within (d outer : Definition) : Prop :=
  ∃ r s, d = .single r ∧ outer = .single s ∧ s.start.le r.start = true ∧ r.start.le r.stop = true ∧
    r.stop.le s.stop = true

/-- Whether a token names a symbol and lies in the definition of the symbol. The name of an alias may
come behind the definition. -/
def Symbol.NamedInside (text : String) (tokens : List OutlineToken) (s : Symbol) : Prop :=
  ∃ name ∈ tokens, ∃ r, s.declaration = some ⟨none, name.placeIn text⟩ ∧ s.definition = .single r ∧
    r.start.le (name.placeIn text).start = true ∧
    (name.placeIn text).start.le (name.placeIn text).stop = true ∧
    ((name.placeIn text).stop.le r.stop = true ∨ name.IsOverlooked tokens s.kind)

section Places

variable {text : String} (hsize : text.utf8ByteSize < UInt32.size)
include hsize

theorem Definition.WithinStretch.within {d outer : Definition} (h : d.WithinStretch text outer) :
    d.Within outer := by
  obtain ⟨start, stop, first, last, rfl, rfl, hfirst, hproper, hlast, -⟩ := h
  refine ⟨_, _, rfl, rfl, ?_, ?_, ?_⟩
  · exact Text.position_le hsize hfirst
  · exact Text.position_le hsize (Nat.le_max_left _ _)
  · exact Text.position_le hsize (by omega)

theorem Symbol.NamedWithin.inside {tokens : List OutlineToken} {s : Symbol}
    (h : s.NamedWithin text tokens) : s.NamedInside text tokens := by
  obtain ⟨name, hname, hplace, hproper, start, stop, hdefinition, hstart, hstop⟩ := h
  have hle := Text.startAround_le text name.start
  have hge := Text.le_stopAround text name.stop
  refine ⟨name, hname, _, hplace, hdefinition, Text.position_le hsize hstart,
    Text.position_le hsize (Nat.le_max_left _ _), hstop.imp_left fun hstop => ?_⟩
  exact Text.position_le hsize (by omega)

end Places

/-! ### Sessions -/

namespace Session

/-- An alias of a structure with the end of a module in its body. The reading of the body stops there,
and the name of the alias is found behind it. -/
def overlooked : String := "typedef struct \x7b int a; endmodule \x7d t;\n"

theorem isPlain_overlooked : Text.IsPlain overlooked := Text.isPlain_of_not_mem (by decide)

theorem symbols_overlooked :
    (withoutFiles.outline "/a.sv" overlooked).1.symbols.allSymbols =
      [{ name := "t", kind := .typeAlias "struct", definition := .single ⟨⟨0, 0⟩, ⟨0, 23⟩⟩,
          declaration := some ⟨none, ⟨⟨0, 36⟩, ⟨0, 37⟩⟩⟩ },
        { name := "a", kind := .field "int", definition := .single ⟨⟨0, 17⟩, ⟨0, 22⟩⟩,
          declaration := some ⟨none, ⟨⟨0, 21⟩, ⟨0, 22⟩⟩⟩, containerPath := ["t"] }] := by
  show (Outline.read (withoutFiles.preprocess "/a.sv" overlooked).1 withoutFiles.options.limits
    .empty).1.symbols.allSymbols = _
  unfold Outline.read
  rw [Grammar.structural_eq_inPieces]
  decide +kernel

/-- Definitions nest. In a document without directives, whatever was read into the table before, every
definition is one stretch of the text, from the start of a token to the end of the same or a later one,
and lies within the definition of the container around it, at whatever depth. Their ranges do so as
well, as long as machine words can count the places of the text. -/
theorem definitions_nest (s : Session) {t : SymbolTable} (h : t.Attainable) (file : String)
    {text : String} (hplain : Text.IsPlain text) :
    (s.outlineInto t file text).1.symbols.ForEach
        (fun m outer => m.definition.WithinStretch text outer)
        (.single (Text.range text 0 text.utf8ByteSize)) ∧
      (min s.options.limits.fileSize text.utf8ByteSize < UInt32.size →
        (s.outlineInto t file text).1.symbols.ForEach (fun m outer => m.definition.Within outer)
          (.single (Text.range text 0 text.utf8ByteSize))) := by
  have hplaced := Outline.placed_read hplain s.env s.cache file s.options.limits h.orderly.sound
  refine ⟨hplaced.imp fun m outer hm => hm.within, fun hsize => hplaced.imp fun m outer hm => ?_⟩
  obtain ⟨name, hname, -⟩ := hm.named
  have hle : text.utf8ByteSize ≤ s.options.limits.fileSize :=
    Outline.size_le_of_mem_tokensOf hplain s.env s.cache file s.options.limits hname
  exact hm.within.within (by rwa [Nat.min_eq_right hle] at hsize)

/-- The field of the structure lies in the definition of the alias. -/
theorem definitions_nest_overlooked :
    (SymbolTable.empty.Attainable ∧ Text.IsPlain overlooked) ∧
      (withoutFiles.outlineInto .empty "/a.sv" overlooked).1.symbols.allSymbols.map (·.name) =
        ["t", "a"] ∧
      (withoutFiles.outlineInto .empty "/a.sv" overlooked).1.symbols.ForEach
        (fun m outer => m.definition.Within outer)
        (.single (Text.range overlooked 0 overlooked.utf8ByteSize)) := by
  refine ⟨⟨.empty, isPlain_overlooked⟩, congrArg (List.map (·.name)) symbols_overlooked, ?_⟩
  · have hnest := definitions_nest withoutFiles .empty "/a.sv" isPlain_overlooked
    exact hnest.2 (by decide)

/-- Names lie in their definitions. In a document without directives, whatever was read into the table
before, every symbol is named by a token that lies in the definition of the symbol, except for the name
of an alias of a body with the end of a region in it, which may come behind the definition. -/
theorem names_lie_in_definitions (s : Session) {t : SymbolTable} (h : t.Attainable) (file : String)
    {text : String} (hplain : Text.IsPlain text) :
    ∀ m ∈ (s.outlineInto t file text).1.symbols.allSymbols,
      m.NamedWithin text (Outline.tokensOf (s.preprocess file text).1 s.options.limits) ∧
        (min s.options.limits.fileSize text.utf8ByteSize < UInt32.size →
          m.NamedInside text
            (Outline.tokensOf (s.preprocess file text).1 s.options.limits)) := by
  intro m hm
  have hplaced := Outline.placed_read hplain s.env s.cache file s.options.limits h.orderly.sound
  obtain ⟨outer, hplaced⟩ := hplaced.of_mem hm
  refine ⟨hplaced.named, fun hsize => ?_⟩
  obtain ⟨name, hname, -⟩ := hplaced.named
  have hle : text.utf8ByteSize ≤ s.options.limits.fileSize :=
    Outline.size_le_of_mem_tokensOf hplain s.env s.cache file s.options.limits hname
  exact hplaced.named.inside (by rwa [Nat.min_eq_right hle] at hsize)

/-- The names of the alias and of its field are tokens of the text. -/
theorem names_overlooked :
    (SymbolTable.empty.Attainable ∧ Text.IsPlain overlooked) ∧
      ∀ m ∈ (withoutFiles.outlineInto .empty "/a.sv" overlooked).1.symbols.allSymbols,
        m.NamedInside overlooked (Outline.tokensOf (withoutFiles.preprocess "/a.sv" overlooked).1
          withoutFiles.options.limits) := by
  refine ⟨⟨.empty, isPlain_overlooked⟩, fun m hm => ?_⟩
  have hnames := names_lie_in_definitions withoutFiles .empty "/a.sv" isPlain_overlooked m hm
  exact hnames.2 (by decide)

/-- The name of an alias may come behind its definition. -/
theorem name_behind_definition :
    Text.IsPlain overlooked ∧
      ∃ m ∈ (withoutFiles.outline "/a.sv" overlooked).1.symbols.allSymbols,
        ∃ whole name, m.definition = .single whole ∧ m.declaration = some ⟨none, name⟩ ∧
          whole.stop.lt name.start = true := by
  refine ⟨isPlain_overlooked, ?_⟩
  rw [symbols_overlooked]
  exact ⟨_, List.mem_cons_self, _, _, rfl, rfl, rfl⟩

end Session

end HdlIndex
