import HdlIndex.Symbol.Encoding

/-! The compact form keeps everything. What is not stored is the path of a symbol, which reading
takes from the nesting, and a definition without any segment cannot be told from a range. Main
statement: symbols whose paths are those of the containers around them, and whose definitions have
a segment, are read back as they were. -/

namespace HdlIndex

open Json (Value)

/-- Whether a symbol can be told from its compact form inside the containers of a path. -/
structure Symbol.Written (path : List String) (s : Symbol) : Prop where
  path : s.containerPath = path
  definition : s.definition ≠ .multi []

namespace Container

mutual

/-- Whether all symbols of a container can be told from their compact forms. -/
def Written (path : List String) : Container → Prop
  | ⟨symbol, symbols, _, _, containers⟩ =>
    symbol.Written path ∧ (∀ s ∈ symbols, s.Written (path ++ [symbol.name])) ∧
      WrittenAll (path ++ [symbol.name]) containers

def WrittenAll (path : List String) : List Container → Prop
  | [] => True
  | c :: rest => c.Written path ∧ WrittenAll path rest

end

end Container

/-- Whether all symbols of a file can be told from their compact forms. -/
structure FileSymbols.Written (file : FileSymbols) : Prop where
  symbols : ∀ s ∈ file.symbols, s.Written []
  containers : Container.WrittenAll [] file.containers

/-! ### Records -/

namespace Encoding

/-- A traversal that turns each written value back. -/
theorem mapM_map_eq_ok {α ε : Type} (write : α → Value) (read : Value → Except ε α)
    (xs : List α) (h : ∀ x ∈ xs, read (write x) = .ok x) : (xs.map write).mapM read = .ok xs := by
  induction xs with
  | nil => rfl
  | cons x xs ih =>
    rw [List.map_cons, List.mapM_cons, h x List.mem_cons_self,
      ih fun y hy => h y (List.mem_cons_of_mem _ hy)]
    rfl

/-- What is left of the elements of a record. -/
def trimmed (items : List Value) : List Value :=
  (items.reverse.dropWhile (fun v => v matches .null)).reverse

theorem items_record (part : Part) (elements : List Value) :
    items part (record elements) = .ok (trimmed elements) := rfl

/-- Only `null`s at the end are left out. -/
theorem exists_trimmed (elements : List Value) :
    ∃ count, elements = trimmed elements ++ List.replicate count .null := by
  let isNull : Value → Bool := fun v => v matches .null
  have hnulls : elements.reverse.takeWhile isNull =
      List.replicate (elements.reverse.takeWhile isNull).length .null := by
    rw [List.eq_replicate_iff]
    refine ⟨rfl, fun v hv => ?_⟩
    have hnull := List.all_eq_true.1 (List.all_takeWhile (p := isNull) (l := elements.reverse)) v hv
    cases v with
    | null => rfl
    | _ => cases hnull
  refine ⟨(elements.reverse.takeWhile isNull).length, ?_⟩
  have hsplit := congrArg List.reverse (List.takeWhile_append_dropWhile (p := isNull)
    (l := elements.reverse))
  rw [List.reverse_append, List.reverse_reverse, hnulls, List.reverse_replicate] at hsplit
  exact hsplit.symm

/-- The element that a value stands for. -/
def present : Value → Option Value
  | .null => none
  | v => some v

theorem element?_eq (elements : List Value) (index : Nat) :
    element? elements index = elements[index]?.bind present := by
  unfold element?
  rcases elements[index]? with _ | v
  · rfl
  · cases v <;> rfl

/-- An element stands where it stood. -/
theorem element?_trimmed (elements : List Value) (index : Nat) :
    element? (trimmed elements) index = elements[index]?.bind present := by
  obtain ⟨count, helements⟩ := exists_trimmed elements
  rw [element?_eq]
  conv => rhs; rw [helements]
  by_cases hlt : index < (trimmed elements).length
  · rw [List.getElem?_append_left hlt]
  · rw [List.getElem?_append_right (Nat.le_of_not_lt hlt),
      List.getElem?_eq_none (Nat.le_of_not_lt hlt), List.getElem?_replicate]
    split <;> rfl

theorem required_trimmed {elements : List Value} {index : Nat} {v : Value}
    (h : elements[index]?.bind present = some v) (part : Part) :
    required part (trimmed elements) index = .ok v := by
  rw [required, element?_trimmed, h]

theorem mapM_present_ofOption {α : Type} (write : α → Value) (read : Value → Decoded α)
    (hwrite : ∀ a, present (write a) = some (write a)) (hread : ∀ a, read (write a) = .ok a)
    (o : Option α) : (present (.ofOption (o.map write))).mapM read = .ok o := by
  cases o with
  | none => rfl
  | some a =>
    rw [Option.map_some, Value.ofOption, hwrite, Option.mapM_some, hread]
    rfl

theorem texts_strings (part : Part) (names : List String) :
    texts part (some (.strings names)) = .ok names :=
  mapM_map_eq_ok Value.string (text part) names fun _ _ => rfl

theorem texts_present (part : Part) (names : List String) :
    texts part (present (optionalStrings names)) = .ok names := by
  cases names with
  | nil => rfl
  | cons name rest => exact texts_strings part (name :: rest)

end Encoding

open Encoding

/-! ### Symbols -/

theorem Range.decode_encode (r : Range) : Range.decode r.encode = .ok r := by
  have hcoordinate (n : UInt32) : coordinate .range (.nat n.toNat) = .ok n := by
    rw [Value.nat, coordinate, if_pos n.toNat_lt_size, UInt32.ofNat_toNat]
  simp only [Range.decode, Range.encode, items, hcoordinate, bind, Except.bind, pure, Except.pure]

theorem Location.decode_encode (l : Location) : Location.decode l.encode = .ok l := by
  obtain ⟨file, range⟩ := l
  cases file with
  | none =>
    show (Range.decode range.encode >>= fun r => pure (Location.mk none r)) = _
    rw [range.decode_encode]
    rfl
  | some file =>
    show (Range.decode range.encode >>= fun r => pure (Location.mk (some file) r)) = _
    rw [range.decode_encode]
    rfl

theorem Location.present_encode (l : Location) : present l.encode = some l.encode := by
  obtain ⟨file, range⟩ := l
  cases file <;> rfl

/-- Files and ranges in turn. -/
def Definition.pieces (segments : List (String × Range)) : List Value :=
  segments.flatMap fun (file, range) => [.string file, range.encode]

theorem Definition.length_pieces (segments : List (String × Range)) :
    (pieces segments).length = 2 * segments.length := by
  induction segments with
  | nil => rfl
  | cons segment rest ih =>
    show (pieces rest).length + 1 + 1 = 2 * (rest.length + 1)
    omega

theorem Definition.segments_pieces (segments : List (String × Range)) :
    Encoding.segments (pieces segments) = .ok segments := by
  induction segments with
  | nil => rfl
  | cons segment rest ih =>
    show (do
      let range ← Range.decode segment.2.encode
      return (segment.1, range) :: (← Encoding.segments (pieces rest))) = _
    rw [segment.2.decode_encode, ih]
    rfl

theorem Definition.decode_encode {d : Definition} (h : d ≠ .multi []) :
    Definition.decode d.encode = .ok d := by
  match d with
  | .single range =>
    show (Range.decode range.encode >>= fun r => pure (Definition.single r)) = _
    rw [range.decode_encode]
    rfl
  | .multi [] => exact absurd rfl h
  | .multi ((file, range) :: rest) =>
    have hlength : ((range.encode :: pieces rest).length % 2 == 0) = false := by
      rw [List.length_cons, length_pieces, beq_eq_false_iff_ne]
      omega
    show (if (range.encode :: pieces rest).length % 2 == 0 then _
      else Encoding.segments (pieces ((file, range) :: rest)) >>= fun all =>
        pure (Definition.multi all)) = _
    rw [hlength, segments_pieces]
    rfl

theorem Definition.present_encode (d : Definition) : present d.encode = some d.encode := by
  cases d <;> rfl

/-- A symbol is read back in the place of its path. -/
theorem Symbol.decode_encode {s : Symbol} {path : List String} (h : s.Written path) :
    Symbol.decode path s.encode = .ok s := by
  obtain ⟨name, kind, definition, declaration, containerPath⟩ := s
  obtain ⟨rfl, hdefinition⟩ := h
  have hlocation := mapM_present_ofOption Location.encode Location.decode Location.present_encode
    Location.decode_encode declaration
  have hdetail := mapM_present_ofOption Value.string (text .symbolDetail) (fun _ => rfl)
    (fun _ => rfl) kind.detail
  rw [encode]
  generalize helements : [Value.string name, .strings kind.tag, definition.encode,
    .ofOption (declaration.map Location.encode), .ofOption (kind.detail.map .string)] = elements
  have h₀ : required .symbol (trimmed elements) 0 = .ok (.string name) :=
    required_trimmed (by subst helements; rfl) _
  have h₁ : required .symbol (trimmed elements) 1 = .ok (.strings kind.tag) :=
    required_trimmed (by subst helements; rfl) _
  have h₂ : required .symbol (trimmed elements) 2 = .ok definition.encode :=
    required_trimmed (by subst helements; exact definition.present_encode) _
  have h₃ : element? (trimmed elements) 3 =
      present (.ofOption (declaration.map Location.encode)) := by
    subst helements
    exact element?_trimmed _ 3
  have h₄ : element? (trimmed elements) 4 = present (.ofOption (kind.detail.map .string)) := by
    subst helements
    exact element?_trimmed _ 4
  simp only [decode, items_record, h₀, h₁, h₂, h₃, h₄, hlocation, hdetail, text, texts_strings,
    Definition.decode_encode hdefinition, SymbolKind.ofTag?_tag, bind, Except.bind, pure,
    Except.pure]

theorem Encoding.leaves_present {path : List String} {symbols : List Symbol}
    (h : ∀ s ∈ symbols, s.Written path) :
    leaves path (present (optionalList (symbols.map Symbol.encode))) = .ok symbols := by
  have hall := mapM_map_eq_ok Symbol.encode (Symbol.decode path) symbols fun s hs =>
    Symbol.decode_encode (h s hs)
  cases symbols with
  | nil => rfl
  | cons s rest => exact hall

/-! ### Containers -/

namespace Container

theorem decodeNested_append_null (path : List String) (index : Nat) (elements : List Value)
    (count : Nat) :
    decodeNested path index (elements ++ List.replicate count .null) =
      decodeNested path index elements := by
  induction elements generalizing index with
  | nil =>
    induction count generalizing index with
    | zero => rfl
    | succ count ih =>
      cases index with
      | zero => rfl
      | succ index => exact ih index
  | cons v rest ih =>
    cases index with
    | zero => cases v <;> rfl
    | succ index => exact ih index

theorem decodeNested_trimmed (path : List String) (index : Nat) (elements : List Value) :
    decodeNested path index (trimmed elements) = decodeNested path index elements := by
  obtain ⟨count, helements⟩ := exists_trimmed elements
  have h := decodeNested_append_null path index (trimmed elements) count
  rw [← helements] at h
  exact h.symm

/-- The rows of a scope are read back from its record. -/
theorem decode_rows {path : List String} {symbols : List Symbol} {containers : List Container}
    (imports exports : List String) (more : List Value)
    (hsymbols : ∀ s ∈ symbols, s.Written path)
    (hcontainers : decodeAll path (encodeAll containers) = .ok containers) :
    let elements := optionalList (symbols.map Symbol.encode) :: optionalStrings imports ::
      optionalStrings exports :: optionalList (encodeAll containers) :: more
    leaves path (element? (trimmed elements) 0) = .ok symbols ∧
      decodeNested path 3 (trimmed elements) = .ok containers ∧
      texts .imports (element? (trimmed elements) 1) = .ok imports ∧
      texts .exports (element? (trimmed elements) 2) = .ok exports := by
  intro elements
  refine ⟨?_, ?_, ?_, ?_⟩
  · rw [element?_trimmed]
    exact leaves_present hsymbols
  · rw [decodeNested_trimmed]
    cases containers with
    | nil => rfl
    | cons c rest => exact hcontainers
  · rw [element?_trimmed]
    exact texts_present _ imports
  · rw [element?_trimmed]
    exact texts_present _ exports

/-- The symbol of a container comes first, and its scope behind it unless it is absent. -/
theorem decode_first {path : List String} {symbol : Symbol} (h : symbol.Written path)
    (scope : Value) :
    decode path (record [symbol.encode, scope]) =
      decodeScope symbol (path ++ [symbol.name]) (present scope).toList := by
  have hread (rest : List Value) : decode path (.array (symbol.encode :: rest)) =
      (Symbol.decode path symbol.encode >>= fun s => decodeScope s (path ++ [s.name]) rest) := rfl
  rw [Symbol.decode_encode h] at hread
  cases scope <;> exact hread _

mutual

theorem decode_encode {path : List String} (c : Container) (h : c.Written path) :
    decode path c.encode = .ok c := by
  match c with
  | ⟨symbol, symbols, imports, exports, containers⟩ =>
    obtain ⟨hsymbol, hsymbols, hcontainers⟩ := h
    obtain ⟨hleaves, hnested, himports, hexports⟩ := decode_rows imports exports [] hsymbols
      (decodeAll_encodeAll containers hcontainers)
    rw [encode]
    split
    · next hbare =>
      simp only [Bool.and_eq_true, List.isEmpty_iff] at hbare
      obtain ⟨⟨⟨rfl, rfl⟩, rfl⟩, rfl⟩ := hbare
      rw [decode_first hsymbol]
      rfl
    · rw [decode_first hsymbol]
      show decodeScope symbol _ [.array (trimmed _)] = _
      simp only [decodeScope, hleaves, hnested, himports, hexports, bind, Except.bind, pure,
        Except.pure]

theorem decodeAll_encodeAll {path : List String} (cs : List Container) (h : WrittenAll path cs) :
    decodeAll path (encodeAll cs) = .ok cs := by
  match cs with
  | [] => rfl
  | c :: rest =>
    obtain ⟨hc, hrest⟩ := h
    rw [encodeAll, decodeAll, decode_encode c hc, decodeAll_encodeAll rest hrest]
    rfl

end

end Container

/-- Symbols whose paths are those of the containers around them, and whose definitions have a
segment, are read back as they were. -/
theorem FileSymbols.Written.decode_encode {file : FileSymbols} (h : file.Written) :
    FileSymbols.decode file.encode = .ok file := by
  obtain ⟨symbols, imports, exports, containers, includes⟩ := file
  obtain ⟨hsymbols, hcontainers⟩ := h
  obtain ⟨hleaves, hnested, himports, hexports⟩ := Container.decode_rows imports exports
    [optionalStrings includes] hsymbols (Container.decodeAll_encodeAll containers hcontainers)
  have hincludes : texts .includes (element? (trimmed
      [optionalList (symbols.map Symbol.encode), optionalStrings imports, optionalStrings exports,
        optionalList (Container.encodeAll containers), optionalStrings includes]) 4) =
      .ok includes := by
    rw [element?_trimmed]
    exact texts_present _ includes
  simp only [decode, encode, items_record, hleaves, hnested, himports, hexports, hincludes, bind,
    Except.bind, pure, Except.pure]

end HdlIndex
