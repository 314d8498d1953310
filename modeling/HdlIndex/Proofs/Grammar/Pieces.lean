import HdlIndex.Macro.Definition
import HdlIndex.Proofs.Grammar.Contract

/-! Tokens as pieces of their text. The tokens of a file stand in its text, one behind another, so
their extents are in order, within the text and between characters, and a token can be read back from
its extent. -/

namespace HdlIndex

namespace Text

/-! ### Cuts at characters -/

@[simp]
theorem byteSize_toList (s : String) : byteSize s.toList = s.utf8ByteSize := by
  rw [← utf8ByteSize_ofList, String.ofList_toList]

theorem dropBytes_zero (cs : List Char) : dropBytes 0 cs = cs := by
  cases cs with
  | nil => rfl
  | cons c cs => exact if_neg (Nat.not_le.2 c.utf8Size_pos)

theorem takeBytes_zero (cs : List Char) : takeBytes 0 cs = [] := by
  cases cs with
  | nil => rfl
  | cons c cs => exact if_neg (Nat.not_le.2 c.utf8Size_pos)

theorem dropBytes_append (a b : List Char) : dropBytes (byteSize a) (a ++ b) = b := by
  induction a with
  | nil => exact dropBytes_zero b
  | cons c a ih =>
    rw [List.cons_append, byteSize, dropBytes, if_pos (Nat.le_add_right _ _),
      Nat.add_sub_cancel_left, ih]

theorem takeBytes_append (a b : List Char) : takeBytes (byteSize a) (a ++ b) = a := by
  induction a with
  | nil => exact takeBytes_zero b
  | cons c a ih =>
    rw [List.cons_append, byteSize, takeBytes, if_pos (Nat.le_add_right _ _),
      Nat.add_sub_cancel_left, ih]

/-! ### Parts of a text -/

/-- A piece stands in a text from an offset on. -/
def Occurs (piece text : String) (start : Nat) : Prop :=
  ∃ before behind, text = before ++ piece ++ behind ∧ start = before.utf8ByteSize

/-- Two offsets mark a part of a text: they are in order, within the text and between characters. -/
structure Spans (text : String) (start stop : Nat) : Prop where
  ordered : start ≤ stop
  within : stop ≤ text.utf8ByteSize
  startValid : String.Pos.Raw.IsValid text ⟨start⟩
  stopValid : String.Pos.Raw.IsValid text ⟨stop⟩

variable {piece text : String} {start stop : Nat}

theorem isValid_of_append {before behind : String} (h : text = before ++ behind) :
    String.Pos.Raw.IsValid text ⟨before.utf8ByteSize⟩ :=
  String.Pos.Raw.isValid_iff_exists_append.2 ⟨before, behind, h, rfl⟩

theorem Occurs.spans (h : Occurs piece text start) :
    Spans text start (start + piece.utf8ByteSize) := by
  obtain ⟨before, behind, htext, rfl⟩ := h
  have hstop := isValid_of_append htext
  rw [String.utf8ByteSize_append] at hstop
  refine ⟨Nat.le_add_right _ _, ?_, isValid_of_append (htext.trans (String.append_assoc ..)), hstop⟩
  rw [htext, String.utf8ByteSize_append, String.utf8ByteSize_append]
  exact Nat.le_add_right _ _

theorem Occurs.slice_eq (h : Occurs piece text start) :
    slice text start (start + piece.utf8ByteSize) = piece := by
  obtain ⟨before, behind, rfl, rfl⟩ := h
  rw [slice, Nat.add_sub_cancel_left, String.append_assoc, String.toList_append,
    ← byteSize_toList before, dropBytes_append, String.toList_append, ← byteSize_toList piece,
    takeBytes_append, String.ofList_toList]

/-- What stands behind the first character of a piece. -/
theorem Occurs.tail {c : Char} {cs : List Char} (h : Occurs (.ofList (c :: cs)) text start) :
    Occurs (.ofList cs) text (start + c.utf8Size) := by
  obtain ⟨before, behind, rfl, rfl⟩ := h
  refine ⟨before ++ .singleton c, behind, ?_, ?_⟩
  · rw [← List.singleton_append, String.ofList_append, ← String.singleton_eq_ofList,
      ← String.append_assoc]
  · rw [String.utf8ByteSize_append, String.utf8ByteSize_singleton]

/-- From the start of one part to the end of another. -/
theorem Spans.join {start' stop' : Nat} (h : Spans text start stop) (h' : Spans text start' stop')
    (hle : start ≤ stop') : Spans text start stop' :=
  ⟨hle, h'.within, h.startValid, h'.stopValid⟩

end Text

/-- Whether tokens fill what lies between two offsets, none of them empty. -/
def Grammar.Fills : Nat → List Token → Nat → Prop
  | start, [], stop => start = stop
  | start, t :: rest, stop => t.offset = start ∧ start < t.stop ∧ Grammar.Fills t.stop rest stop

namespace Grammar.Tiling

variable {text : String} {tokens : List Token}

/-- A token starts as far behind the first one as the tokens in front of it are long. -/
theorem offset_eq {offset : Nat} {front behind : List Token} {t : Token}
    (hfirst : ∀ u ∈ (front ++ t :: behind).head?, u.offset = offset)
    (hadjacent : (front ++ t :: behind).IsChain fun t u => u.offset = t.stop) :
    t.offset = offset + (String.join (front.map (·.text))).utf8ByteSize := by
  induction front generalizing offset with
  | nil => simpa using hfirst t (by simp)
  | cons u front ih =>
    obtain ⟨hhead, htail⟩ := List.isChain_cons.1 hadjacent
    have hu : u.offset = offset := hfirst u (by simp)
    rw [ih hhead htail, Token.stop, hu, List.map_cons, String.join_cons, String.utf8ByteSize_append,
      Nat.add_assoc]

theorem occurs (h : Tiling text tokens) {t : Token} (ht : t ∈ tokens) :
    Text.Occurs t.text text t.offset := by
  obtain ⟨front, behind, rfl⟩ := List.append_of_mem ht
  have hoffset := offset_eq h.first h.adjacent
  rw [Nat.zero_add] at hoffset
  refine ⟨.join (front.map (·.text)), .join (behind.map (·.text)), ?_, hoffset⟩
  rw [← h.text, List.map_append, String.join_append, List.map_cons, String.join_cons,
    String.append_assoc]

theorem pairwise (h : Tiling text tokens) : tokens.Pairwise fun t u => t.stop ≤ u.offset := by
  let behind : Token → Token → Prop := fun t u => t.stop ≤ u.offset
  have : Trans behind behind behind :=
    ⟨fun {t u v} htu huv => htu.trans ((Nat.le_add_right u.offset _).trans huv)⟩
  have hchain : tokens.IsChain behind := h.adjacent.imp fun _ _ htu => Nat.le_of_eq htu.symm
  exact hchain.pairwise

theorem fills (h : Tiling text tokens) : Fills 0 tokens text.utf8ByteSize := by
  have hfills (tokens : List Token) (start : Nat) (hnonempty : ∀ t ∈ tokens, t.text ≠ "")
      (hfirst : ∀ t ∈ tokens.head?, t.offset = start)
      (hadjacent : tokens.IsChain fun t u => u.offset = t.stop) :
      Fills start tokens (start + (String.join (tokens.map (·.text))).utf8ByteSize) := by
    induction tokens generalizing start with
    | nil => exact (Nat.add_zero start).symm
    | cons t rest ih =>
      obtain ⟨hhead, htail⟩ := List.isChain_cons.1 hadjacent
      have ht : t.offset = start := hfirst t (by simp)
      have hsize : t.text.utf8ByteSize ≠ 0 := by
        rw [ne_eq, String.utf8ByteSize_eq_zero_iff]
        exact hnonempty t List.mem_cons_self
      have hrest := ih t.stop (fun u hu => hnonempty u (List.mem_cons_of_mem _ hu)) hhead htail
      have hstop : t.stop = start + t.text.utf8ByteSize := ht ▸ rfl
      rw [List.map_cons, String.join_cons, String.utf8ByteSize_append, ← Nat.add_assoc, ← hstop]
      exact ⟨ht, by omega, hrest⟩
  have hall := hfills tokens 0 h.nonempty h.first h.adjacent
  rwa [Nat.zero_add, h.text] at hall

end Grammar.Tiling

namespace Lexeme

/-- A token that can be read in a text. -/
def Literal (text : String) (t : Lexeme) : Prop :=
  Text.Occurs t.text text t.start ∧ t.stop = t.start + t.text.utf8ByteSize

theorem tiling_lex (text : String) : Grammar.Tiling text (Grammar.directives.tokenize text) :=
  (Grammar.tiling_tokenize_ofDefs Grammar.areTidy_directives text none).2

theorem literal_of_mem_lex {file text : String} {t : Lexeme} (h : t ∈ lex file text) :
    t.Literal text := by
  obtain ⟨token, htoken, rfl⟩ := List.mem_map.1 h
  exact ⟨(tiling_lex text).occurs htoken, rfl⟩

/-- The tokens of a file stand one behind another. -/
theorem pairwise_lex (file text : String) :
    (lex file text).Pairwise fun t u => t.stop ≤ u.start :=
  List.pairwise_map.2 (tiling_lex text).pairwise

theorem Literal.spans {text : String} {t : Lexeme} (h : t.Literal text) :
    Text.Spans text t.start t.stop := h.2 ▸ h.1.spans

theorem Literal.slice_eq {text : String} {t : Lexeme} (h : t.Literal text) :
    Text.slice text t.start t.stop = t.text := h.2 ▸ h.1.slice_eq

end Lexeme

end HdlIndex
