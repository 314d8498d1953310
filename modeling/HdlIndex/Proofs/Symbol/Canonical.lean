import HdlIndex.Proofs.Steps
import HdlIndex.Proofs.Symbol.Codec

/-! Canonical forms of symbol data. Reading accepts more than writing produces: elements behind the
last place, `null`s that could be left out, empty lists that could be absent, parts of a tag that the
kind does not use. All of that is lost, and what is left is data that is read back from its compact
form. Main statements: data is read back from its compact form exactly if its paths are those of the
nesting and its definitions have segments, and the compact form of whatever was read is canonical in
each of its records. -/

namespace HdlIndex

open Json (Value)

open Encoding

/-! ### What is read can be written -/

theorem Encoding.segments_ne_nil {v : Value} {rest : List Value} {all : List (String × Range)}
    (h : segments (v :: rest) = .ok all) : all ≠ [] := by
  cases rest with
  | nil => cases h
  | cons w rest =>
    obtain ⟨file, -, h⟩ := exists_of_bind_eq_ok h
    obtain ⟨range, -, h⟩ := exists_of_bind_eq_ok h
    obtain ⟨more, -, h⟩ := exists_of_bind_eq_ok h
    cases h
    exact List.cons_ne_nil _ _

theorem Definition.ne_of_decode {v : Value} {d : Definition} (h : Definition.decode v = .ok d) :
    d ≠ .multi [] := by
  obtain ⟨elements, -, h⟩ := exists_of_bind_eq_ok h
  split at h
  · split at h
    · cases h
    · obtain ⟨all, hall, h⟩ := exists_of_bind_eq_ok h
      cases h
      exact fun heq => segments_ne_nil hall (Definition.multi.inj heq)
  · obtain ⟨range, -, h⟩ := exists_of_bind_eq_ok h
    cases h
    exact Definition.noConfusion

theorem Symbol.written_of_decode {path : List String} {v : Value} {s : Symbol}
    (h : Symbol.decode path v = .ok s) : s.Written path := by
  obtain ⟨parts, -, h⟩ := exists_of_bind_eq_ok h
  obtain ⟨_, -, h⟩ := exists_of_bind_eq_ok h
  obtain ⟨name, -, h⟩ := exists_of_bind_eq_ok h
  obtain ⟨_, -, h⟩ := exists_of_bind_eq_ok h
  obtain ⟨tag, -, h⟩ := exists_of_bind_eq_ok h
  obtain ⟨_, -, h⟩ := exists_of_bind_eq_ok h
  obtain ⟨definition, hdefinition, h⟩ := exists_of_bind_eq_ok h
  obtain ⟨declaration, -, h⟩ := exists_of_bind_eq_ok h
  obtain ⟨detail, -, h⟩ := exists_of_bind_eq_ok h
  split at h
  · cases h
  · cases h
    exact ⟨rfl, Definition.ne_of_decode hdefinition⟩

theorem Encoding.written_of_leaves {path : List String} {v? : Option Value} {symbols : List Symbol}
    (h : leaves path v? = .ok symbols) : ∀ s ∈ symbols, s.Written path := by
  cases v? with
  | none =>
    cases h
    simp
  | some v =>
    obtain ⟨elements, -, h⟩ := exists_of_bind_eq_ok h
    intro s hs
    obtain ⟨w, -, hw⟩ := exists_of_mapM_eq_ok h s hs
    exact Symbol.written_of_decode hw

namespace Container

mutual

theorem written_of_decode {path : List String} (v : Value) {c : Container}
    (h : decode path v = .ok c) : c.Written path := by
  match v with
  | .array (first :: rest) =>
    rw [decode.eq_def] at h
    split at h
    · cases h
    · cases h
    · next heq =>
      cases heq
      obtain ⟨symbol, hsymbol, h⟩ := exists_of_bind_eq_ok h
      exact written_of_decodeScope (Symbol.written_of_decode hsymbol) rest h
    · cases h
  | .array [] | .null | .bool _ | .number _ | .string _ | .object _ => cases h

theorem written_of_decodeScope {path : List String} {symbol : Symbol} (hsymbol : symbol.Written path)
    (rest : List Value) {c : Container}
    (h : decodeScope symbol (path ++ [symbol.name]) rest = .ok c) : c.Written path := by
  match rest with
  | [] | .null :: _ =>
    cases h
    exact ⟨hsymbol, by simp, trivial⟩
  | .array parts :: _ =>
    obtain ⟨symbols, hsymbols, h⟩ := exists_of_bind_eq_ok h
    obtain ⟨containers, hcontainers, h⟩ := exists_of_bind_eq_ok h
    obtain ⟨imports, -, h⟩ := exists_of_bind_eq_ok h
    obtain ⟨exports, -, h⟩ := exists_of_bind_eq_ok h
    cases h
    exact ⟨hsymbol, written_of_leaves hsymbols, writtenAll_of_decodeNested 3 parts hcontainers⟩
  | .bool _ :: _ | .number _ :: _ | .string _ :: _ | .object _ :: _ => cases h

theorem writtenAll_of_decodeNested {path : List String} (index : Nat) (parts : List Value)
    {cs : List Container} (h : decodeNested path index parts = .ok cs) : WrittenAll path cs := by
  match index, parts with
  | _, [] | 0, .null :: _ =>
    cases h
    trivial
  | index + 1, _ :: rest => exact writtenAll_of_decodeNested index rest h
  | 0, .array parts :: _ => exact writtenAll_of_decodeAll parts h
  | 0, .bool _ :: _ | 0, .number _ :: _ | 0, .string _ :: _ | 0, .object _ :: _ => cases h

theorem writtenAll_of_decodeAll {path : List String} (vs : List Value) {cs : List Container}
    (h : decodeAll path vs = .ok cs) : WrittenAll path cs := by
  match vs with
  | [] =>
    cases h
    trivial
  | v :: rest =>
    obtain ⟨c, hc, h⟩ := exists_of_bind_eq_ok h
    obtain ⟨more, hmore, h⟩ := exists_of_bind_eq_ok h
    cases h
    exact ⟨written_of_decode v hc, writtenAll_of_decodeAll rest hmore⟩

end

end Container

namespace FileSymbols

/-- What is read from a value, whatever it is, can be told from its compact form. -/
theorem written_of_decode {v : Value} {file : FileSymbols} (h : FileSymbols.decode v = .ok file) :
    file.Written := by
  obtain ⟨parts, -, h⟩ := exists_of_bind_eq_ok h
  obtain ⟨symbols, hsymbols, h⟩ := exists_of_bind_eq_ok h
  obtain ⟨containers, hcontainers, h⟩ := exists_of_bind_eq_ok h
  obtain ⟨imports, -, h⟩ := exists_of_bind_eq_ok h
  obtain ⟨exports, -, h⟩ := exists_of_bind_eq_ok h
  obtain ⟨includes, -, h⟩ := exists_of_bind_eq_ok h
  cases h
  exact ⟨written_of_leaves hsymbols, Container.writtenAll_of_decodeNested 3 parts hcontainers⟩

/-- The compact form is exact: data is read back from it as it was if and only if the path of every
symbol consists of the names of the containers around it and no definition is without a segment. -/
theorem decode_encode_iff_written (file : FileSymbols) :
    FileSymbols.decode file.encode = .ok file ↔ file.Written :=
  ⟨written_of_decode, Written.decode_encode⟩

end FileSymbols

/-! ### Records -/

namespace Encoding

/-- What an array stands for: the whole of a file, the scope of a container, a container or a symbol. -/
inductive RecordKind where
  | file
  | scope
  | container
  | symbol
  deriving DecidableEq, Repr

/-- How many elements a record must have. The elements behind them may be absent. -/
def RecordKind.required : RecordKind → Nat
  | file | scope => 0
  | container => 1
  | symbol => 3

/-- The records of file data by the places where they stand: symbols in the first and containers in
the fourth element of a file or a scope, the symbol of a container in its first element and the scope
in its second. -/
inductive HasRecord (root : Value) : RecordKind → Value → Prop
  | file : HasRecord root .file root
  | leaf {kind : RecordKind} {elements symbols : List Value} {v : Value}
      (h : HasRecord root kind (.array elements)) (hkind : kind = .file ∨ kind = .scope)
      (hplace : elements[0]? = some (.array symbols)) (hv : v ∈ symbols) : HasRecord root .symbol v
  | nested {kind : RecordKind} {elements containers : List Value} {v : Value}
      (h : HasRecord root kind (.array elements)) (hkind : kind = .file ∨ kind = .scope)
      (hplace : elements[3]? = some (.array containers)) (hv : v ∈ containers) :
      HasRecord root .container v
  | head {elements : List Value} {v : Value} (h : HasRecord root .container (.array elements))
      (hplace : elements[0]? = some v) : HasRecord root .symbol v
  | scope {elements : List Value} {v : Value} (h : HasRecord root .container (.array elements))
      (hplace : elements[1]? = some v) : HasRecord root .scope v

/-- Whether a record is an array without `null` at its end, with no empty list where an element may be
absent. -/
def RecordKind.Canonical (kind : RecordKind) (v : Value) : Prop :=
  ∃ elements, v = .array elements ∧ elements.getLast? ≠ some .null ∧
    .array [] ∉ elements.drop kind.required

/-! ### What writing leaves out -/

theorem eq_false_of_head?_dropWhile {α : Type} {p : α → Bool} {l : List α} {a : α}
    (h : (l.dropWhile p).head? = some a) : p a = false := by
  have hnot := List.head?_dropWhile_not p l
  rw [h] at hnot
  exact hnot

theorem getLast?_trimmed (elements : List Value) : (trimmed elements).getLast? ≠ some .null := by
  rw [trimmed, List.getLast?_reverse]
  intro h
  cases eq_false_of_head?_dropWhile h

theorem getElem?_of_trimmed {elements : List Value} {index : Nat} {v : Value}
    (h : (trimmed elements)[index]? = some v) : elements[index]? = some v := by
  obtain ⟨count, helements⟩ := exists_trimmed elements
  obtain ⟨hlt, -⟩ := List.getElem?_eq_some_iff.1 h
  rw [helements, List.getElem?_append_left hlt, h]

/-- The last element is left only if it is no `null`. -/
theorem ne_null_of_trimmed {elements : List Value} {index : Nat} {v : Value}
    (h : (trimmed elements)[index]? = some v) (hlast : elements.length = index + 1) : v ≠ .null := by
  rintro rfl
  obtain ⟨count, helements⟩ := exists_trimmed elements
  obtain ⟨hlt, -⟩ := List.getElem?_eq_some_iff.1 h
  have hlength := congrArg List.length helements
  rw [List.length_append, hlast] at hlength
  refine getLast?_trimmed elements ?_
  rw [List.getLast?_eq_getElem?, show (trimmed elements).length - 1 = index by omega, h]

/-- Only `null`s leave nothing. -/
theorem eq_null_of_trimmed_eq_nil {elements : List Value} (h : trimmed elements = []) :
    ∀ v ∈ elements, v = .null := by
  obtain ⟨count, helements⟩ := exists_trimmed elements
  rw [h, List.nil_append] at helements
  intro v hv
  rw [helements] at hv
  exact List.eq_of_mem_replicate hv

theorem ne_optionalList (vs : List Value) : .array [] ≠ optionalList vs := by
  cases vs <;> simp [optionalList]

theorem optionalList_eq_null {vs : List Value} (h : optionalList vs = .null) : vs = [] := by
  cases vs with
  | nil => rfl
  | cons => cases h

theorem eq_of_optionalList_eq {vs ws : List Value} (h : optionalList vs = .array ws) : vs = ws := by
  cases vs with
  | nil => cases h
  | cons => exact Value.array.inj h

/-- A record is canonical if none of the elements that may be absent is an empty list. -/
theorem RecordKind.canonical_record {kind : RecordKind} {elements : List Value}
    (h : .array [] ∉ elements.drop kind.required) : kind.Canonical (record elements) := by
  refine ⟨trimmed elements, rfl, getLast?_trimmed elements, fun hmem => h ?_⟩
  obtain ⟨count, helements⟩ := exists_trimmed elements
  rw [helements, List.drop_append]
  exact List.mem_append_left _ hmem

end Encoding

namespace Container

theorem encodeAll_eq_map (cs : List Container) : encodeAll cs = cs.map encode := by
  induction cs with
  | nil => rfl
  | cons c rest ih => rw [encodeAll, ih, List.map_cons]

/-- The elements of the record of a scope. -/
def scopeElements (c : Container) : List Value :=
  [optionalList (c.symbols.map Symbol.encode), optionalStrings c.imports, optionalStrings c.exports,
    optionalList (encodeAll c.containers)]

theorem encode_eq (c : Container) :
    c.encode = record [c.symbol.encode, if c.isBare then .null else record c.scopeElements] := by
  cases c
  rfl

/-- The scope that a record has is not empty. -/
theorem trimmed_scopeElements_ne_nil {c : Container} (h : c.isBare = false) :
    trimmed c.scopeElements ≠ [] := by
  intro hnil
  have hnull := eq_null_of_trimmed_eq_nil hnil
  simp only [scopeElements, List.forall_mem_cons] at hnull
  obtain ⟨hsymbols, himports, hexports, hcontainers, -⟩ := hnull
  have hsymbols := List.map_eq_nil_iff.1 (optionalList_eq_null hsymbols)
  have himports := List.map_eq_nil_iff.1 (optionalList_eq_null himports)
  have hexports := List.map_eq_nil_iff.1 (optionalList_eq_null hexports)
  have hcontainers := optionalList_eq_null hcontainers
  rw [encodeAll_eq_map, List.map_eq_nil_iff] at hcontainers
  simp [isBare, hsymbols, himports, hexports, hcontainers] at h

end Container

/-! ### Canonical records -/

namespace Encoding

/-- What the records of written data are written for. -/
def RecordKind.Writes : RecordKind → Value → Prop
  | file, v => ∃ file : FileSymbols, v = file.encode
  | scope, v => ∃ c : Container, c.isBare = false ∧ v = record c.scopeElements
  | container, v => ∃ c : Container, v = c.encode
  | symbol, v => ∃ s : Symbol, v = s.encode

/-- A file and a scope start with the same rows. -/
theorem RecordKind.Writes.exists_rows {kind : RecordKind} {elements : List Value}
    (h : kind.Writes (.array elements)) (hkind : kind = .file ∨ kind = .scope) :
    ∃ (symbols : List Symbol) (containers : List Container) (imports exports : Value)
      (more : List Value), elements = trimmed (optionalList (symbols.map Symbol.encode) :: imports ::
        exports :: optionalList (containers.map Container.encode) :: more) := by
  rcases hkind with rfl | rfl
  · obtain ⟨file, hfile⟩ := h
    refine ⟨file.symbols, file.containers, optionalStrings file.imports,
      optionalStrings file.exports, [optionalStrings file.includes], ?_⟩
    rw [← Container.encodeAll_eq_map]
    exact Value.array.inj hfile
  · obtain ⟨c, -, hc⟩ := h
    refine ⟨c.symbols, c.containers, optionalStrings c.imports, optionalStrings c.exports, [], ?_⟩
    rw [← Container.encodeAll_eq_map]
    exact Value.array.inj hc

/-- Each record of a file that was written was written for a part of it. -/
theorem HasRecord.writes {file : FileSymbols} {kind : RecordKind} {v : Value}
    (h : HasRecord file.encode kind v) : kind.Writes v := by
  induction h with
  | file => exact ⟨file, rfl⟩
  | leaf _ hkind hplace hv ih =>
    obtain ⟨symbols, containers, imports, exports, more, rfl⟩ := ih.exists_rows hkind
    have hsymbols := eq_of_optionalList_eq (Option.some.inj (getElem?_of_trimmed hplace))
    rw [← hsymbols] at hv
    obtain ⟨s, -, hs⟩ := List.mem_map.1 hv
    exact ⟨s, hs.symm⟩
  | nested _ hkind hplace hv ih =>
    obtain ⟨symbols, containers, imports, exports, more, rfl⟩ := ih.exists_rows hkind
    have hcontainers := eq_of_optionalList_eq (Option.some.inj (getElem?_of_trimmed hplace))
    rw [← hcontainers] at hv
    obtain ⟨c, -, hc⟩ := List.mem_map.1 hv
    exact ⟨c, hc.symm⟩
  | head _ hplace ih =>
    obtain ⟨c, hc⟩ := ih
    rw [c.encode_eq] at hc
    cases hc
    exact ⟨c.symbol, (Option.some.inj (getElem?_of_trimmed hplace)).symm⟩
  | scope _ hplace ih =>
    obtain ⟨c, hc⟩ := ih
    rw [c.encode_eq] at hc
    cases hc
    have hne := ne_null_of_trimmed hplace rfl
    have hscope := Option.some.inj (getElem?_of_trimmed hplace)
    cases hbare : c.isBare with
    | true => exact absurd (by simp [← hscope, hbare]) hne
    | false => exact ⟨c, hbare, by simp [← hscope, hbare]⟩

theorem canonical_symbol (s : Symbol) : RecordKind.symbol.Canonical s.encode := by
  refine RecordKind.canonical_record ?_
  obtain ⟨name, kind, definition, declaration, path⟩ := s
  cases declaration with
  | none => cases kind.detail <;> simp [RecordKind.required, Value.ofOption]
  | some location =>
    obtain ⟨file, range⟩ := location
    cases file <;> cases kind.detail <;>
      simp [RecordKind.required, Value.ofOption, Location.encode, Range.encode]

theorem canonical_container (c : Container) : RecordKind.container.Canonical c.encode := by
  rw [c.encode_eq]
  refine RecordKind.canonical_record fun hmem => ?_
  have hempty := List.mem_singleton.1 hmem
  cases hbare : c.isBare with
  | true =>
    rw [hbare] at hempty
    cases hempty
  | false =>
    rw [hbare] at hempty
    exact c.trimmed_scopeElements_ne_nil hbare (Value.array.inj hempty).symm

/-- What is written is canonical. -/
theorem RecordKind.Writes.canonical {kind : RecordKind} {v : Value} (h : kind.Writes v) :
    kind.Canonical v := by
  cases kind with
  | file =>
    obtain ⟨file, rfl⟩ := h
    exact canonical_record (by simp [required, optionalStrings, ne_optionalList])
  | scope =>
    obtain ⟨c, -, rfl⟩ := h
    exact canonical_record
      (by simp [required, Container.scopeElements, optionalStrings, ne_optionalList])
  | container =>
    obtain ⟨c, rfl⟩ := h
    exact canonical_container c
  | symbol =>
    obtain ⟨s, rfl⟩ := h
    exact canonical_symbol s

end Encoding

namespace FileSymbols

/-- Reading is canonicalizing: whatever value was read, the compact form of what was read is read back as
the same data, so it is written in that form again, and all its records are canonical. -/
theorem canonical_of_decode {v : Value} {file : FileSymbols} (h : FileSymbols.decode v = .ok file) :
    FileSymbols.decode file.encode = .ok file ∧
      (FileSymbols.decode file.encode).map encode = .ok file.encode ∧
      ∀ kind r, HasRecord file.encode kind r → kind.Canonical r := by
  have hback := (written_of_decode h).decode_encode
  refine ⟨hback, ?_, fun kind r hr => hr.writes.canonical⟩
  rw [hback]
  rfl

/-- A module with an empty list of imports, superfluous elements, a tag of two words and `null`s that
could be left out. -/
def untidy : Value :=
  .array [.null, .array [], .null, .array [.array [
      .array [.string "m", .strings ["module", "cell"], Range.zero.encode, .null, .string "top", .null],
      .array [.array [.array [.string "a", .strings ["port"], Range.zero.encode]], .null, .null],
      .bool true]], .null, .null]

def tidied : FileSymbols where
  containers := [{
    symbol := { name := "m", kind := .hdlModule }
    symbols := [{ name := "a", kind := .port none, containerPath := ["m"] }] }]

theorem canonical_of_decode_untidy :
    FileSymbols.decode untidy = .ok tidied ∧
      FileSymbols.decode tidied.encode = .ok tidied ∧
      (FileSymbols.decode tidied.encode).map encode = .ok tidied.encode ∧
      ∀ kind r, HasRecord tidied.encode kind r → kind.Canonical r :=
  have h : FileSymbols.decode untidy = .ok tidied := rfl
  ⟨h, canonical_of_decode h⟩

/-- Nothing is left of the superfluous parts. -/
example : tidied.encode = .array [.null, .null, .null, .array [.array [
    .array [.string "m", .strings ["module"], Range.zero.encode],
    .array [.array [.array [.string "a", .strings ["port"], Range.zero.encode]]]]]] := rfl

end FileSymbols

end HdlIndex
