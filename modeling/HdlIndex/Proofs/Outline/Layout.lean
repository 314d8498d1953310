import HdlIndex.Proofs.Grammar.Openings
import HdlIndex.Proofs.Outline.Tokens

/-! The layout of a text. A text is a row of blanks, comments, attributes, string literals and pieces that
are read as they stand, and this is how its tokens are made: none from a blank, a comment or an attribute,
one from a literal and one from each other piece. Main statements: the tokens of a layout stand in the text
as they are, take in every piece that counts, and have only blanks, comments and attributes between them. -/

namespace HdlIndex

open Grammar

/-- Blanks, a comment or an attribute, and what comes behind. -/
inductive Trivia : List Char → List Char → Prop
  | blanks {chars : List Char} (behind : List Char) (hne : chars ≠ [])
      (h : ∀ c ∈ chars, Text.isBlank c = true) : Trivia chars behind
  | line {chars behind : List Char} (h : ∀ c ∈ chars, c ≠ '\r' ∧ c ≠ '\n')
      (hend : ∀ c ∈ behind.head?, c = '\r' ∨ c = '\n') : Trivia ('/' :: '/' :: chars) behind
  | comment {text inner : List Char} {behind : Option (List Char)} (h : Block '/' text inner behind) :
      Trivia ('/' :: '*' :: inner) (behind.getD [])
  | attributes {text inner : List Char} {behind : Option (List Char)}
      (hopen : (text.dropWhile Text.isBlank).head? ≠ some ')') (h : Block ')' text inner behind) :
      Trivia ('(' :: '*' :: inner) (behind.getD [])

theorem Trivia.ne_nil {chars behind : List Char} (h : Trivia chars behind) : chars ≠ [] := by
  cases h with
  | blanks _ hne => exact hne
  | line => exact List.cons_ne_nil _ _
  | comment => exact List.cons_ne_nil _ _
  | attributes => exact List.cons_ne_nil _ _

/-- Tokens that tile some characters lie among them. -/
theorem Grammar.Tiles.within {offset : Nat} {chars : List Char} {tokens : List Token}
    (h : Tiles offset chars tokens) :
    ∀ t ∈ tokens, offset ≤ t.offset ∧ t.stop ≤ offset + Text.byteSize chars := by
  induction h with
  | nil => simp
  | @cons offset piece rest scopes tokens _ _ ih =>
    rw [Text.byteSize_append, ← Nat.add_assoc]
    refine List.forall_mem_cons.2 ⟨⟨Nat.le_refl _, ?_⟩, fun t ht => ?_⟩
    · rw [Token.stop, Text.utf8ByteSize_ofList]
      exact Nat.le_add_right _ _
    · exact ⟨(Nat.le_add_right _ _).trans (ih t ht).1, (ih t ht).2⟩

namespace OutlineToken

/-- The token of a string literal, from what stands behind its first quote. -/
def ofLiteral (offset : Nat) (inner : List Char) : OutlineToken :=
  ⟨.ofList ('"' :: inner), .string, offset, offset + Text.byteSize ('"' :: inner)⟩

/-- The token of a piece that is read as it stands. -/
def ofPlain (piece : Token) : OutlineToken := ofPiece piece (.ofScope piece.scope)

/-- How a text from an offset on is made of trivia, literals and other pieces, how it is cut, and which
tokens are made of it. A piece that is none of the others does not start as one of them does, and it holds
a quote only if it is an escaped name. -/
inductive Layout : Nat → List Char → List Token → List OutlineToken → Prop
  | nil (offset : Nat) : Layout offset [] [] []
  | trivia {offset : Nat} {chars behind : List Char} {pieces more : List Token}
      {tokens : List OutlineToken} (h : Trivia chars behind) (hpieces : Tiles offset chars pieces)
      (htrivia : ∀ t ∈ pieces, isTrivia t = true)
      (hmore : Layout (offset + Text.byteSize chars) behind more tokens) :
      Layout offset (chars ++ behind) (pieces ++ more) tokens
  | literal {offset : Nat} {text inner : List Char} {behind : Option (List Char)}
      {pieces more : List Token} {tokens : List OutlineToken} (h : Literal text inner behind)
      (hpieces : Tiles offset ('"' :: inner) pieces) (hstring : ∀ t ∈ pieces, inString t = true)
      (hmore : Layout (offset + Text.byteSize ('"' :: inner)) (behind.getD []) more tokens) :
      Layout offset ('"' :: text) (pieces ++ more) (ofLiteral offset inner :: tokens)
  | piece {offset : Nat} {chars behind : List Char} {scopes : List String} {more : List Token}
      {tokens : List OutlineToken} (hne : chars ≠ []) (hstart : PlainStart (chars ++ behind))
      (hquote : '"' ∈ chars → IsEscaped chars)
      (htrivia : isTrivia ⟨.ofList chars, offset, scopes⟩ = false)
      (hstring : inString ⟨.ofList chars, offset, scopes⟩ = false)
      (hmore : Layout (offset + Text.byteSize chars) behind more tokens) :
      Layout offset (chars ++ behind) (⟨.ofList chars, offset, scopes⟩ :: more)
        (ofPlain ⟨.ofList chars, offset, scopes⟩ :: tokens)

/-! ### Tokens from pieces -/

section

variable {out : Array OutlineToken} {pieces more : List Token} {t : OutlineToken}

theorem gather_trivia (h : ∀ piece ∈ pieces, isTrivia piece = true ∧ inString piece = false) :
    gather out none (pieces ++ more) = gather out none more := by
  induction pieces with
  | nil => rfl
  | cons piece pieces ih =>
    obtain ⟨⟨htrivia, hstring⟩, hpieces⟩ := List.forall_mem_cons.1 h
    rw [List.cons_append, gather, if_neg (by simp [hstring])]
    dsimp only
    rw [if_pos (by simp [htrivia]), ← ih hpieces]
    simp

theorem gather_piece {piece : Token} (htrivia : isTrivia piece = false)
    (hstring : inString piece = false) (hscopes : piece.scopes ≠ []) :
    gather out none (piece :: more) =
      gather (out.push (ofPlain piece)) none more := by
  rw [ofPlain, gather, if_neg (by simp [hstring])]
  dsimp only
  rw [if_neg (by simp [htrivia, hscopes])]
  simp

/-- A literal takes up the pieces that go on with it. -/
theorem gather_goesOn (h : ∀ piece ∈ pieces, inString piece = true ∧ endsString piece = false) :
    gather out (some t) (pieces ++ more) = gather out (some (pieces.foldl extend t)) more := by
  induction pieces generalizing t with
  | nil => rfl
  | cons piece pieces ih =>
    obtain ⟨⟨hstring, hends⟩, hpieces⟩ := List.forall_mem_cons.1 h
    rw [List.cons_append, gather, if_pos hstring, if_neg (by simp [hends]), ih hpieces,
      List.foldl_cons]

/-- Pieces that tile some characters behind a literal extend it by them. -/
theorem foldl_extend {offset : Nat} {chars : List Char} (h : Tiles offset chars pieces)
    (ht : t.stop = offset) : pieces.foldl extend t =
      ⟨t.text ++ .ofList chars, t.role, t.start, offset + Text.byteSize chars⟩ := by
  induction h generalizing t with
  | nil offset => simp [Text.byteSize, ← ht]
  | @cons offset piece rest scopes tokens _ _ ih =>
    have hstop : (t.extend ⟨.ofList piece, offset, scopes⟩).stop = offset + Text.byteSize piece := by
      rw [extend, Token.stop, Text.utf8ByteSize_ofList]
    rw [List.foldl_cons, ih hstop, extend, Text.byteSize_append, Nat.add_assoc, String.ofList_append,
      String.append_assoc]

end

/-- A layout of a text, with tokens that are those of the pieces. -/
structure LaidOut (offset : Nat) (text : List Char) (pieces : List Token)
    (tokens : List OutlineToken) : Prop where
  layout : Layout offset text pieces tokens
  gathers : ∀ out, (gather out none pieces).toList = out.toList ++ tokens

namespace LaidOut

variable {offset : Nat} {text chars inner rest : List Char} {behind : Option (List Char)}
  {pieces more : List Token} {tokens : List OutlineToken}

theorem nil (offset : Nat) : LaidOut offset [] [] [] where
  layout := .nil offset
  gathers out := by simp [gather]

theorem trivia (h : Trivia chars rest) (hpieces : Tiles offset chars pieces)
    (hhidden : ∀ t ∈ pieces, isTrivia t = true ∧ inString t = false)
    (hmore : LaidOut (offset + Text.byteSize chars) rest more tokens) :
    LaidOut offset (chars ++ rest) (pieces ++ more) tokens where
  layout := .trivia h hpieces (fun t ht => (hhidden t ht).1) hmore.layout
  gathers out := by rw [gather_trivia hhidden, hmore.gathers]

/-- Blanks that may be missing. -/
theorem blanks {scopes : List String} (h : ∀ c ∈ chars, Text.isBlank c = true)
    (hhidden : isTrivia ⟨.ofList chars, offset, scopes⟩ = true ∧
      inString ⟨.ofList chars, offset, scopes⟩ = false)
    (hmore : LaidOut (offset + Text.byteSize chars) rest more tokens) :
    LaidOut offset (chars ++ rest)
      ((if chars = [] then [] else [⟨.ofList chars, offset, scopes⟩]) ++ more) tokens := by
  by_cases hempty : chars = []
  · subst hempty
    exact hmore
  · rw [if_neg hempty]
    exact .trivia (.blanks _ hempty h) (.single hempty _ _) (List.forall_mem_singleton.2 hhidden) hmore

theorem piece {scopes : List String} (hne : chars ≠ []) (hstart : PlainStart (chars ++ rest))
    (hquote : '"' ∈ chars → IsEscaped chars) (hscopes : scopes ≠ [])
    (htrivia : isTrivia ⟨.ofList chars, offset, scopes⟩ = false)
    (hstring : inString ⟨.ofList chars, offset, scopes⟩ = false)
    (hmore : LaidOut (offset + Text.byteSize chars) rest more tokens) :
    LaidOut offset (chars ++ rest) (⟨.ofList chars, offset, scopes⟩ :: more)
      (ofPlain ⟨.ofList chars, offset, scopes⟩ :: tokens) where
  layout := .piece hne hstart hquote htrivia hstring hmore.layout
  gathers out := by
    rw [gather_piece htrivia hstring hscopes, hmore.gathers, Array.toList_push, List.append_assoc,
      List.singleton_append]

theorem layout_nil {offset : Nat} (h : Layout offset [] pieces tokens) : pieces = [] ∧ tokens = [] := by
  generalize htext : ([] : List Char) = text at h
  cases h with
  | nil => exact ⟨rfl, rfl⟩
  | trivia h => exact absurd (List.append_eq_nil_iff.1 htext.symm).1 h.ne_nil
  | literal => cases htext
  | piece hne => exact absurd (List.append_eq_nil_iff.1 htext.symm).1 hne

theorem literal {first : Token} {middle : List Token} {last : Option Token}
    (h : Literal text inner behind)
    (hpieces : Tiles offset ('"' :: inner) (first :: (middle ++ last.toList)))
    (hfirst : inString first = true)
    (hmiddle : ∀ t ∈ middle, inString t = true ∧ endsString t = false)
    (hlast : ∀ t ∈ last, inString t = true ∧ endsString t = true)
    (hclosed : last.isSome = behind.isSome)
    (hmore : LaidOut (offset + Text.byteSize ('"' :: inner)) (behind.getD []) more tokens) :
    LaidOut offset ('"' :: text) (first :: (middle ++ last.toList) ++ more)
      (ofLiteral offset inner :: tokens) := by
  have hall : (middle ++ last.toList).foldl extend (ofPiece first .string) =
      ofLiteral offset inner := by
    generalize hchars : '"' :: inner = chars at hpieces
    cases hpieces with
    | @cons _ piece rest scopes _ hpiece hrest =>
      rw [foldl_extend hrest (by rw [ofPiece, Token.stop, Text.utf8ByteSize_ofList]), ofLiteral, hchars,
        ofPiece, String.ofList_append, Text.byteSize_append, Nat.add_assoc]
  refine ⟨.literal h hpieces ?_ hmore.layout, fun out => ?_⟩
  · refine List.forall_mem_cons.2 ⟨hfirst, List.forall_mem_append.2 ⟨fun t ht => (hmiddle t ht).1, ?_⟩⟩
    exact fun t ht => (hlast t (Option.mem_toList.1 ht)).1
  · rw [List.cons_append, gather, if_pos hfirst, List.append_assoc, gather_goesOn hmiddle]
    cases last with
    | none =>
      cases behind with
      | some => cases hclosed
      | none =>
        obtain ⟨rfl, rfl⟩ := layout_nil hmore.layout
        rw [Option.toList_none, List.append_nil] at hall
        simp [gather, hall]
    | some t =>
      obtain ⟨hstring, hends⟩ := hlast t rfl
      rw [Option.toList_some, List.foldl_append] at hall
      rw [Option.toList_some, List.singleton_append, gather, if_pos hstring, if_pos hends, hmore.gathers,
        Array.toList_push, List.append_assoc, ← hall]
      rfl

end LaidOut

/-! ### What a layout says of the tokens -/

/-- A row of blanks, comments and attributes, and what comes behind. -/
inductive TriviaRow : List Char → List Char → Prop
  | nil (behind : List Char) : TriviaRow [] behind
  | cons {chars more behind : List Char} (h : Trivia chars (more ++ behind))
      (hmore : TriviaRow more behind) : TriviaRow (chars ++ more) behind

namespace Layout

variable {offset : Nat} {text : List Char} {pieces : List Token} {tokens : List OutlineToken}
  {t u : OutlineToken}

/-- In front of the first token there are only trivia, and behind it the layout goes on. -/
theorem exists_first (h : Layout offset text pieces (t :: tokens)) :
    ∃ gap chars behind more, text = gap ++ (chars ++ behind) ∧ TriviaRow gap (chars ++ behind) ∧
      t.text = .ofList chars ∧ t.start = offset + Text.byteSize gap ∧
      t.stop = t.start + Text.byteSize chars ∧ Layout t.stop behind more tokens := by
  generalize hall : t :: tokens = all at h
  induction h with
  | nil => cases hall
  | @trivia offset front behind pieces more all h _ _ _ ih =>
    obtain ⟨gap, chars, rest, more, rfl, hgap, htext, hstart, hstop, hmore⟩ := ih hall
    refine ⟨front ++ gap, chars, rest, more, (List.append_assoc ..).symm, .cons h hgap, htext, ?_, hstop,
      hmore⟩
    rw [hstart, Text.byteSize_append, Nat.add_assoc]
  | @literal offset text inner behind pieces more all h _ _ hmore _ =>
    obtain ⟨rfl, rfl⟩ := List.cons.inj hall
    refine ⟨[], '"' :: inner, behind.getD [], more, ?_, .nil _, rfl, rfl, rfl, hmore⟩
    rw [h.text_eq]
    rfl
  | @piece offset chars behind scopes more all _ _ _ _ _ hmore _ =>
    obtain ⟨rfl, rfl⟩ := List.cons.inj hall
    have hstop : (ofPlain ⟨.ofList chars, offset, scopes⟩).stop = offset + Text.byteSize chars := by
      rw [ofPlain, ofPiece, Token.stop, Text.utf8ByteSize_ofList]
    exact ⟨[], chars, behind, more, rfl, .nil _, rfl, rfl, hstop, hstop ▸ hmore⟩

/-- Each token stands in the text as it is. -/
theorem exists_occurrence (h : Layout offset text pieces tokens) (ht : t ∈ tokens) :
    ∃ before chars behind, text = before ++ (chars ++ behind) ∧ t.text = .ofList chars ∧
      t.start = offset + Text.byteSize before ∧ t.stop = t.start + Text.byteSize chars := by
  induction tokens generalizing offset text pieces with
  | nil => cases ht
  | cons u tokens ih =>
    obtain ⟨gap, chars, behind, more, rfl, -, htext, hstart, hstop, hmore⟩ := h.exists_first
    rcases List.mem_cons.1 ht with rfl | ht
    · exact ⟨gap, chars, behind, rfl, htext, hstart, hstop⟩
    · obtain ⟨before, chars', behind', rfl, htext', hstart', hstop'⟩ := ih hmore ht
      refine ⟨gap ++ (chars ++ before), chars', behind', by simp, htext', ?_, hstop'⟩
      rw [hstart', hstop, hstart, Text.byteSize_append, Text.byteSize_append, Nat.add_assoc, Nat.add_assoc]

/-- Between two tokens there are only trivia. -/
theorem exists_gap {front behind : List OutlineToken}
    (h : Layout offset text pieces (front ++ t :: u :: behind)) :
    ∃ before gap rest, text = before ++ (gap ++ rest) ∧ t.stop = offset + Text.byteSize before ∧
      TriviaRow gap rest ∧ u.start = t.stop + Text.byteSize gap := by
  induction front generalizing offset text pieces with
  | nil =>
    obtain ⟨gap, chars, rest, more, rfl, -, -, hstart, hstop, hmore⟩ := h.exists_first
    obtain ⟨gap', chars', rest', -, rfl, hgap', -, hstart', -, -⟩ := hmore.exists_first
    refine ⟨gap ++ chars, gap', chars' ++ rest', by simp, ?_, hgap', hstart'⟩
    rw [hstop, hstart, Text.byteSize_append, Nat.add_assoc]
  | cons v front ih =>
    obtain ⟨gap, chars, rest, more, rfl, -, -, hstart, hstop, hmore⟩ := h.exists_first
    obtain ⟨before, gap', rest', rfl, hbefore, hgap', hu⟩ := ih hmore
    refine ⟨gap ++ (chars ++ before), gap', rest', by simp, ?_, hgap', hu⟩
    rw [hbefore, hstop, hstart, Text.byteSize_append, Text.byteSize_append, Nat.add_assoc, Nat.add_assoc]

/-- Each piece that counts lies in a token. -/
theorem exists_token (h : Layout offset text pieces tokens) {piece : Token} (hpiece : piece ∈ pieces)
    (hcounts : isTrivia piece = false) :
    ∃ t ∈ tokens, t.start ≤ piece.offset ∧ piece.stop ≤ t.stop := by
  induction h with
  | nil => cases hpiece
  | trivia _ _ htrivia _ ih =>
    rcases List.mem_append.1 hpiece with hpiece | hpiece
    · rw [htrivia piece hpiece] at hcounts
      cases hcounts
    · exact ih hpiece
  | @literal offset text inner _ _ _ _ _ hpieces _ _ ih =>
    rcases List.mem_append.1 hpiece with hpiece | hpiece
    · exact ⟨ofLiteral offset inner, List.mem_cons_self, hpieces.within piece hpiece⟩
    · obtain ⟨t, ht, hin⟩ := ih hpiece
      exact ⟨t, List.mem_cons_of_mem _ ht, hin⟩
  | piece _ _ _ _ _ _ ih =>
    rcases List.mem_cons.1 hpiece with rfl | hpiece
    · exact ⟨_, List.mem_cons_self, Nat.le_refl _, Nat.le_refl _⟩
    · obtain ⟨t, ht, hin⟩ := ih hpiece
      exact ⟨t, List.mem_cons_of_mem _ ht, hin⟩

end Layout

/-- Tokens in order do not overlap. -/
theorem InOrder.eq_of_overlap {start stop : Nat} {tokens : List OutlineToken} {t u : OutlineToken}
    (h : InOrder start tokens stop) (ht : t ∈ tokens) (hu : u ∈ tokens) (htu : t.start < u.stop)
    (hut : u.start < t.stop) : t = u := by
  induction tokens generalizing start with
  | nil => cases ht
  | cons v rest ih =>
    obtain ⟨-, -, hrest⟩ := h
    rcases List.mem_cons.1 ht with rfl | ht'
    · rcases List.mem_cons.1 hu with rfl | hu'
      · rfl
      · exact absurd (hrest.of_mem hu').1 (Nat.not_le.2 hut)
    · rcases List.mem_cons.1 hu with rfl | hu'
      · exact absurd (hrest.of_mem ht').1 (Nat.not_le.2 htu)
      · exact ih hrest ht' hu'

end OutlineToken

end HdlIndex
