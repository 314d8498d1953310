import HdlIndex.Proofs.Grammar.Marks
import HdlIndex.Proofs.Outline.Stretch

/-! The tokens that an outline is read from. They stand one behind another in the text, a move reads
them in this order, and no word stands for a bracket. Main statement: a token that a move reads lies
between the place where the move starts and the one where it stops. -/

namespace HdlIndex

theorem Role.scope_ofScope {scope : String} (h : Role.ofScope scope ≠ .invalid) :
    (Role.ofScope scope).scope = scope := by
  unfold Role.ofScope at h ⊢
  cases hfound : Role.all.find? (·.scope == scope) with
  | none => simp [hfound] at h
  | some role => simpa using List.find?_some hfound

namespace OutlineToken

/-- Whether tokens stand one behind another between two offsets, none of them empty. -/
def InOrder : Nat → List OutlineToken → Nat → Prop
  | start, [], stop => start ≤ stop
  | start, t :: rest, stop => start ≤ t.start ∧ t.start < t.stop ∧ InOrder t.stop rest stop

/-- Where a row of tokens stops that comes behind an offset. -/
def stopOf (start : Nat) (tokens : List OutlineToken) : Nat :=
  (tokens.getLast?.map (·.stop)).getD start

@[simp]
theorem stopOf_nil (start : Nat) : stopOf start [] = start := rfl

@[simp]
theorem stopOf_cons (start : Nat) (t : OutlineToken) (rest : List OutlineToken) :
    stopOf start (t :: rest) = stopOf t.stop rest := by
  rw [stopOf, stopOf, List.getLast?_cons]
  cases rest.getLast? <;> rfl

namespace InOrder

variable {start stop : Nat} {a b tokens : List OutlineToken} {t : OutlineToken}

theorem le (h : InOrder start tokens stop) : start ≤ stop := by
  induction tokens generalizing start with
  | nil => exact h
  | cons t rest ih =>
    obtain ⟨hstart, ht, hrest⟩ := h
    have hle := ih hrest
    omega

theorem append (h : InOrder start a stop) {last : Nat} (h' : InOrder stop b last) :
    InOrder start (a ++ b) last := by
  induction a generalizing start with
  | nil =>
    cases b with
    | nil => exact Nat.le_trans h h'
    | cons t b => exact ⟨Nat.le_trans h h'.1, h'.2⟩
  | cons t a ih => exact ⟨h.1, h.2.1, ih h.2.2⟩

/-- A row in order can be cut anywhere. -/
theorem cut (h : InOrder start (a ++ b) stop) :
    InOrder start a (stopOf start a) ∧ InOrder (stopOf start a) b stop := by
  induction a generalizing start with
  | nil => exact ⟨Nat.le_refl start, h⟩
  | cons t a ih =>
    rw [stopOf_cons]
    obtain ⟨hfront, hbehind⟩ := ih h.2.2
    exact ⟨⟨h.1, h.2.1, hfront⟩, hbehind⟩

theorem of_mem (h : InOrder start tokens stop) (ht : t ∈ tokens) :
    start ≤ t.start ∧ t.start < t.stop ∧ t.stop ≤ stop := by
  induction tokens generalizing start with
  | nil => cases ht
  | cons u rest ih =>
    obtain ⟨hstart, hu, hrest⟩ := h
    rcases List.mem_cons.1 ht with rfl | ht
    · exact ⟨hstart, hu, hrest.le⟩
    · obtain ⟨hfirst, hlater⟩ := ih hrest ht
      exact ⟨by omega, hlater⟩

theorem take (h : InOrder start tokens stop) (n : Nat) : InOrder start (tokens.take n) stop := by
  rw [← List.take_append_drop n tokens] at h
  obtain ⟨hfront, hbehind⟩ := h.cut
  simpa using hfront.append (b := []) hbehind.le

end InOrder

/-! ### Tokens of a text -/

/-- A token that is put together from pieces comes behind what was put together before. -/
theorem inOrder_gather {out : Array OutlineToken} {literal : Option OutlineToken}
    {pieces : List Token} {start stop : Nat} (hout : InOrder 0 (out.toList ++ literal.toList) start)
    (hpieces : Grammar.Fills start pieces stop) :
    InOrder 0 (gather out literal pieces).toList stop := by
  induction pieces generalizing out literal start with
  | nil =>
    obtain rfl : start = stop := hpieces
    simpa [gather] using hout
  | cons piece rest ih =>
    obtain ⟨rfl, hpiece, hrest⟩ := hpieces
    have hnext (role : Role) :
        InOrder 0 (out.toList ++ literal.toList ++ [ofPiece piece role]) piece.stop :=
      hout.append ⟨Nat.le_refl _, hpiece, Nat.le_refl _⟩
    unfold gather
    split
    · split
      · exact ih (by simpa using hnext .string) hrest
      · next t =>
        have hextend : InOrder 0 (out.toList ++ [t.extend piece]) piece.stop := by
          obtain ⟨hfront, hstart, ht, hle⟩ := hout.cut
          exact hfront.append ⟨hstart, Nat.lt_trans (Nat.lt_of_lt_of_le ht hle) hpiece, Nat.le_refl _⟩
        split
        · exact ih (by simpa using hextend) hrest
        · exact ih hextend hrest
    · dsimp only
      split
      · have hskip := hout.append (b := []) (Nat.le_of_lt hpiece)
        exact ih (by simpa using hskip) hrest
      · exact ih (by simpa using hnext (.ofScope piece.scope)) hrest

theorem inOrder_significant (text : String) :
    InOrder 0 (significant (Grammar.structural.tokenize text)) text.utf8ByteSize := by
  have hnone : InOrder 0 ((#[] : Array OutlineToken).toList ++ none.toList) 0 := Nat.le_refl 0
  exact inOrder_gather hnone
    (Grammar.tiling_tokenize_ofDefs Grammar.areTidy_structural text none).2.fills

/-! ### Tokens and their pieces -/

section Pieces

variable {all pieces : List Token} (Literal Good : OutlineToken → Prop)

/-- What holds of each literal that is put together from pieces, and of each piece that counts by
itself, holds of all tokens. -/
theorem forall_gather (hstart : ∀ piece ∈ all, Literal (ofPiece piece .string))
    (hextend : ∀ t, Literal t → ∀ piece ∈ all, Literal (t.extend piece))
    (hliteral : ∀ t, Literal t → Good t)
    (hpiece : ∀ piece ∈ all, Good (ofPiece piece (.ofScope piece.scope))) (hpieces : pieces ⊆ all)
    {out : Array OutlineToken} {literal : Option OutlineToken} (hout : ∀ t ∈ out.toList, Good t)
    (hopen : ∀ t ∈ literal.toList, Literal t) : ∀ t ∈ (gather out literal pieces).toList, Good t := by
  have hflushed (out : Array OutlineToken) (hout : ∀ t ∈ out.toList, Good t)
      (tokens : List OutlineToken) (htokens : ∀ t ∈ tokens, Good t) :
      ∀ t ∈ (out ++ tokens).toList, Good t := by
    rw [Array.toList_appendList]
    exact List.forall_mem_append.2 ⟨hout, htokens⟩
  have hpush (out : Array OutlineToken) (hout : ∀ t ∈ out.toList, Good t) (t : OutlineToken)
      (ht : Good t) : ∀ u ∈ (out.push t).toList, Good u := by
    rw [Array.toList_push]
    exact List.forall_mem_append.2 ⟨hout, List.forall_mem_singleton.2 ht⟩
  induction pieces generalizing out literal with
  | nil => exact hflushed out hout _ fun t ht => hliteral t (hopen t ht)
  | cons piece rest ih =>
    have hrest : rest ⊆ all := fun t ht => hpieces (List.mem_cons_of_mem _ ht)
    have hmem : piece ∈ all := hpieces List.mem_cons_self
    unfold gather
    split
    · split
      · exact ih hrest hout (List.forall_mem_singleton.2 (hstart piece hmem))
      · next t =>
        have hlonger : Literal (t.extend piece) := hextend t (hopen t (by simp)) piece hmem
        split
        · exact ih hrest (hpush out hout _ (hliteral _ hlonger)) (by simp)
        · exact ih hrest hout (List.forall_mem_singleton.2 hlonger)
    · have hout' := hflushed out hout _ fun t ht => hliteral t (hopen t ht)
      dsimp only
      split
      · exact ih hrest hout' (by simp)
      · exact ih hrest (hpush _ hout' _ (hpiece piece hmem)) (by simp)

end Pieces

/-- Whether a token starts with one of the pieces and stops with another. -/
def Joins (pieces : List Token) (t : OutlineToken) : Prop :=
  (∃ first ∈ pieces, t.start = first.offset) ∧ ∃ last ∈ pieces, t.stop = last.stop

theorem joins_significant {pieces : List Token} : ∀ t ∈ significant pieces, Joins pieces t := by
  have hone (piece : Token) (hpiece : piece ∈ pieces) (role : Role) :
      Joins pieces (ofPiece piece role) := ⟨⟨piece, hpiece, rfl⟩, piece, hpiece, rfl⟩
  exact forall_gather (Joins pieces) (Joins pieces) (fun piece hpiece => hone piece hpiece _)
    (fun t ht piece hpiece => ⟨ht.1, piece, hpiece, rfl⟩) (fun _ ht => ht)
    (fun piece hpiece => hone piece hpiece _) (List.Subset.refl _) (by simp) (by simp)

/-- Tokens start and stop between characters. -/
theorem isValid_significant {text : String} {t : OutlineToken}
    (ht : t ∈ significant (Grammar.structural.tokenize text)) :
    String.Pos.Raw.IsValid text ⟨t.start⟩ ∧ String.Pos.Raw.IsValid text ⟨t.stop⟩ := by
  have htiling := (Grammar.tiling_tokenize_ofDefs Grammar.areTidy_structural text none).2
  obtain ⟨⟨first, hfirst, hstart⟩, last, hlast, hstop⟩ := joins_significant t ht
  rw [hstart, hstop]
  exact ⟨(htiling.occurs hfirst).spans.startValid, (htiling.occurs hlast).spans.stopValid⟩

/-! ### Brackets -/

/-- Whether a token is a string literal, or a piece in the role that its scope stands for. -/
def IsRead (pieces : List Token) (t : OutlineToken) : Prop :=
  t.role = .string ∨ ∃ piece ∈ pieces, t = ofPiece piece (.ofScope piece.scope)

theorem isRead_significant {pieces : List Token} : ∀ t ∈ significant pieces, IsRead pieces t :=
  forall_gather (·.role = .string) (IsRead pieces) (fun _ _ => rfl) (fun _ ht _ _ => ht)
    (fun _ ht => .inl ht) (fun piece hpiece => .inr ⟨piece, hpiece, rfl⟩) (List.Subset.refl _)
    (by simp) (by simp)

/-- The scopes of opening brackets. -/
def isBracketScope (scope : String) : Bool :=
  [Role.parenOpen, Role.bracketOpen, Role.braceOpen].any (·.scope == scope)

theorem marks_structural : Grammar.structural.Marks isBracketScope ['(', '[', '\x7b'] :=
  Grammar.marks_ofDefs Grammar.areTidy_structural (by decide +kernel)

/-- What plays the part of an opening bracket is one. -/
theorem head?_of_isOpen {text : String} {t : OutlineToken}
    (ht : t ∈ significant (Grammar.structural.tokenize text)) (h : t.isOpen = true) :
    ∃ c ∈ ['(', '[', '\x7b'], t.text.toList.head? = some c := by
  have hroles : t.role = .parenOpen ∨ t.role = .bracketOpen ∨ t.role = .braceOpen := by
    unfold isOpen at h
    split at h <;> simp_all
  rcases isRead_significant t ht with hstring | ⟨piece, hpiece, rfl⟩
  · simp [hstring] at hroles
  · refine marks_structural.tokenize text piece hpiece ?_
    have hvalid : Role.ofScope piece.scope ≠ .invalid := fun hinvalid => by
      simp [ofPiece, hinvalid] at hroles
    have hscope := Role.scope_ofScope hvalid
    rw [isBracketScope, List.any_eq_true]
    exact ⟨Role.ofScope piece.scope, by simpa [ofPiece] using hroles, by simp [hscope]⟩

/-- Only the end of a region misleads the reading of a text. -/
theorem isRegionEnd_of_misleads {text : String} {t : OutlineToken}
    (ht : t ∈ significant (Grammar.structural.tokenize text)) (h : t.misleads = true) :
    t.isRegionEnd = true := by
  refine (Bool.or_eq_true_iff.1 h).resolve_right fun hword => ?_
  obtain ⟨hopen, hword⟩ := Bool.and_eq_true_iff.1 hword
  obtain ⟨c, hc, hhead⟩ := head?_of_isOpen ht hopen
  -- No word starts with a bracket.
  have hwords : ["var", "interface", "type"].all fun word =>
      ['(', '[', '\x7b'].all (word.toList.head? != some ·) := by decide
  have hbracket := List.all_eq_true.1 hwords t.text (List.contains_iff_mem.1 hword)
  simpa [hhead] using List.all_eq_true.1 hbracket c hc

end OutlineToken

namespace Cursor

open OutlineToken

variable {c d : Cursor} {t : OutlineToken} {size : Nat}

/-- Whether the tokens behind a place stand one behind another in a text of the given size. -/
def InOrder (c : Cursor) (size : Nat) : Prop := OutlineToken.InOrder c.stop c.rest size

namespace InOrder

theorem le (h : c.InOrder size) : c.stop ≤ size := OutlineToken.InOrder.le h

theorem reads {tokens : List OutlineToken} (h : c.InOrder size) (hd : c.Reads tokens d) :
    OutlineToken.InOrder c.stop tokens d.stop ∧ d.InOrder size := by
  unfold InOrder at h ⊢
  rw [hd.rest] at h
  obtain ⟨hfront, hbehind⟩ := h.cut
  rw [show d.stop = stopOf c.stop tokens from hd.stop]
  exact ⟨hfront, hbehind⟩

theorem ahead (h : c.InOrder size) (hd : c.Ahead d) : d.InOrder size := by
  obtain ⟨tokens, htokens⟩ := hd
  exact (h.reads htokens).2

theorem stop_le (h : c.InOrder size) (hd : c.Ahead d) : c.stop ≤ d.stop := by
  obtain ⟨tokens, htokens⟩ := hd
  exact (h.reads htokens).1.le

/-- The tokens that are read lie between the next token, which is the first of them, and where the
last one stops. -/
theorem between (h : c.InOrder size) (ht : c.Between t d) :
    c.nextStart ≤ t.start ∧ t.start < t.stop ∧ t.stop ≤ d.stop := by
  obtain ⟨tokens, htokens, hmem⟩ := ht
  have hread := (h.reads htokens).1
  cases tokens with
  | nil => cases hmem
  | cons u rest =>
    have hnext : c.nextStart = u.start := by rw [nextStart, htokens.rest]; rfl
    have hrow : OutlineToken.InOrder u.start (u :: rest) d.stop := ⟨Nat.le_refl _, hread.2⟩
    rw [hnext]
    exact hrow.of_mem hmem

/-- Of two places with a token behind them, the one ahead has its token further on. -/
theorem nextStart_le (h : c.InOrder size) (hd : c.Ahead d) (hnext : d.rest ≠ []) :
    c.nextStart ≤ d.nextStart := by
  cases hrest : d.rest with
  | nil => exact absurd hrest hnext
  | cons t rest =>
    have hstart : d.nextStart = t.start := by rw [nextStart, hrest]
    rw [hstart]
    exact (h.between (.after hd (.next hrest))).1

end InOrder

end Cursor

end HdlIndex
