import HdlIndex.Outline.Reading
import HdlIndex.Proofs.Grammar.Marks
import HdlIndex.Proofs.Outline.Segments
import HdlIndex.Proofs.Sources

/-! Documents without directives and invocations of macros. Their tokens go through the processing as
they are, so that the processed text is the text of the document, and a stretch of it is traced back
to a stretch of the document, widened to whole tokens. Main statement: the places of definitions and
names in such a document, as ranges of its text. -/

namespace HdlIndex

/-- Whether a text has no directive and no invocation of a macro. -/
def Text.IsPlain (text : String) : Prop :=
  ∀ t ∈ Grammar.directives.tokenize text,
    LexKind.classify t ≠ .directive ∧ LexKind.classify t ≠ .conditional

instance (text : String) : Decidable (Text.IsPlain text) :=
  inferInstanceAs (Decidable (∀ t ∈ _, _ ∧ _))

/-- The scopes of directives and invocations. -/
def LexKind.isDirectiveScope (scope : String) : Bool :=
  [directive, conditional].any (·.scope == scope)

theorem LexKind.scope_ofScope {scope : String} (h : ofScope scope ≠ .invalid) :
    (ofScope scope).scope = scope := by
  unfold ofScope at h ⊢
  dsimp only at h ⊢
  generalize [identifier, directive, conditional, quote, escapedQuote, paste, lineContinuation,
    number, string, lineComment, blank, newline, opening, closing, comma, operator] = kinds at h ⊢
  cases hfound : kinds.find? (·.scope == scope) with
  | none => simp [hfound] at h
  | some kind => simpa using List.find?_some hfound

theorem LexKind.marks_directives : Grammar.directives.Marks isDirectiveScope ['`'] :=
  Grammar.marks_ofDefs Grammar.areTidy_directives (by decide +kernel)

/-- A text without a backtick has no directives and no invocations. -/
theorem Text.isPlain_of_not_mem {text : String} (h : '`' ∉ text.toList) : IsPlain text := by
  intro t ht
  have hscope (kind : LexKind) (hkind : kind = .directive ∨ kind = .conditional) :
      LexKind.classify t ≠ kind := by
    intro hclassify
    unfold LexKind.classify at hclassify
    split at hclassify
    · simp [← hclassify] at hkind
    · have hscope : kind.scope = t.scope := by
        rw [← hclassify]
        refine LexKind.scope_ofScope fun hinvalid => ?_
        simp [← hclassify, hinvalid] at hkind
      have hmarked : LexKind.isDirectiveScope t.scope = true := by
        rw [LexKind.isDirectiveScope, List.any_eq_true]
        exact ⟨kind, by simpa using hkind, by simp [hscope]⟩
      -- The token would start with a backtick, which stands in the text, too.
      obtain ⟨c, hc, hhead⟩ := LexKind.marks_directives.tokenize text t ht hmarked
      obtain ⟨before, behind, htext, -⟩ := (Lexeme.tiling_lex text).occurs ht
      refine h ?_
      rw [htext, String.toList_append, String.toList_append, ← List.mem_singleton.1 hc]
      exact List.mem_append_left _ (List.mem_append_right _ (List.mem_of_head? hhead))
  exact ⟨hscope _ (.inl rfl), hscope _ (.inr rfl)⟩

/-! ### Tokens as they are -/

/-- A token of a file that goes to the output as it is. -/
def PostToken.ofPiece (t : Token) : PostToken := ⟨t.text, t.offset, t.stop⟩

/-- The stream of the tokens of one file, as they are. -/
def TokenStream.verbatim (file : String) (pieces : List Token) : TokenStream where
  tokens := (pieces.map .ofPiece).toArray
  runs := if pieces.isEmpty then #[] else #[⟨file, 0⟩]

theorem TokenStream.text_verbatim (file : String) (pieces : List Token) :
    (verbatim file pieces).text = String.join (pieces.map (·.text)) := by
  simp only [text, verbatim, List.foldl_toArray', String.join, List.foldl_map, PostToken.ofPiece]

theorem Emitter.push_verbatim (file : String) (pieces : List Token) (t : Token) :
    (⟨.verbatim file pieces, false⟩ : Emitter).push file (.ofPiece t) =
      ⟨.verbatim file (pieces ++ [t]), false⟩ := by
  cases pieces <;>
    simp [push, TokenStream.verbatim, TokenStream.beginRun]

namespace Preprocess

variable (env : Env) (nested : Option Process) (chain : List Path) (file text : String)

theorem scan_of_plain (st : FileState) (hconditions : st.conditions = []) (front : List Token)
    (run : RunState) {pieces : List Token}
    (h : ∀ t ∈ pieces, LexKind.classify t ≠ .directive ∧ LexKind.classify t ≠ .conditional) :
    scan env nested chain file text { st with out := ⟨.verbatim file front, false⟩ } run
        (pieces.map fun t => ⟨t.text, LexKind.classify t, t.offset, t.stop, file⟩) =
      ({ st with out := ⟨.verbatim file (front ++ pieces), false⟩ }, run) := by
  induction pieces generalizing front with
  | nil => simp [scan, hconditions]
  | cons t rest ih =>
    obtain ⟨⟨hdirective, hconditional⟩, hrest⟩ := List.forall_mem_cons.1 h
    have hitem (environment : Expansion.Env) (lexeme : Lexeme) (behind : List Lexeme)
        (hkind : lexeme.kind = LexKind.classify t) :
        Item.read environment st.conditions lexeme behind = ⟨[], .emit lexeme, behind⟩ := by
      unfold Item.read
      split
      · exact absurd (hkind.symm.trans ‹_›) hconditional
      · exact absurd (hkind.symm.trans ‹_›) hdirective
      · rfl
    have hrun : { run with diagnostics := run.diagnostics ++ [] } = run := by rw [List.append_nil]
    rw [List.map_cons, scan, hitem _ _ _ rfl, hrun, List.append_cons, ← ih (front ++ [t]) hrest,
      ← Emitter.push_verbatim]
    rfl

theorem process_of_plain (h : Text.IsPlain text) (depth : Nat) (run : RunState) :
    (process env depth chain file text run).1.symbols = [] ∧
      (process env depth chain file text run).1.stream =
        .verbatim file (Grammar.directives.tokenize text) ∧
      (process env depth chain file text run).2.sources = run.sources.insert file text := by
  have hfile (nested : Option Process) :
      (processFile env nested chain file text run).1.symbols = [] ∧
        (processFile env nested chain file text run).1.stream =
          .verbatim file (Grammar.directives.tokenize text) ∧
        (processFile env nested chain file text run).2.sources = run.sources.insert file text := by
    unfold processFile
    dsimp only
    have hscan (run : RunState) :
        scan env nested chain file text {} run (Lexeme.lex file text) =
          ({ out := ⟨.verbatim file (Grammar.directives.tokenize text), false⟩ }, run) :=
      scan_of_plain env nested chain file text {} rfl [] run h
    rw [hscan]
    refine ⟨rfl, rfl, ?_⟩
    dsimp only
    split <;> rfl
  cases depth with
  | zero => exact hfile none
  | succ depth => exact hfile _

end Preprocess

/-! ### Tokens around a place -/

namespace Grammar

/-- Where the token starts that a place lies in. -/
def startAround (x : Nat) : List Token → Nat
  | [] => x
  | t :: rest => if x < t.stop then t.offset else startAround x rest

/-- Where the token stops that a stretch up to a place ends in. -/
def stopAround (x : Nat) : List Token → Nat
  | [] => x
  | t :: rest => if x ≤ t.stop then t.stop else stopAround x rest

variable {start stop x y : Nat} {pieces : List Token}

theorem Fills.le (h : Fills start pieces stop) : start ≤ stop := by
  induction pieces generalizing start with
  | nil => exact Nat.le_of_eq h
  | cons t rest ih =>
    obtain ⟨-, hlt, hrest⟩ := h
    exact Nat.le_trans (Nat.le_of_lt hlt) (ih hrest)

theorem startAround_le (h : Fills start pieces stop) (hx : start ≤ x) :
    start ≤ startAround x pieces ∧ startAround x pieces ≤ x := by
  induction pieces generalizing start with
  | nil => exact ⟨hx, Nat.le_refl x⟩
  | cons t rest ih =>
    obtain ⟨rfl, hlt, hrest⟩ := h
    rw [startAround]
    split
    · exact ⟨Nat.le_refl _, hx⟩
    · next hge =>
      obtain ⟨hstart, hle⟩ := ih hrest (Nat.le_of_not_lt hge)
      exact ⟨by omega, hle⟩

theorem startAround_mono (h : Fills start pieces stop) (hx : start ≤ x) (hxy : x ≤ y) :
    startAround x pieces ≤ startAround y pieces := by
  induction pieces generalizing start with
  | nil => exact hxy
  | cons t rest ih =>
    have hy := startAround_le h (Nat.le_trans hx hxy)
    obtain ⟨rfl, hlt, hrest⟩ := h
    rw [startAround]
    split
    · exact hy.1
    · next hge =>
      rw [startAround, if_neg (by omega)]
      exact ih hrest (Nat.le_of_not_lt hge)

theorem le_stopAround (x : Nat) (pieces : List Token) : x ≤ stopAround x pieces := by
  induction pieces with
  | nil => exact Nat.le_refl x
  | cons t rest ih =>
    rw [stopAround]
    split
    · assumption
    · exact ih

theorem stopAround_le (h : Fills start pieces stop) (hx : x ≤ stop) :
    stopAround x pieces ≤ stop := by
  induction pieces generalizing start with
  | nil => exact hx
  | cons t rest ih =>
    obtain ⟨-, -, hrest⟩ := h
    rw [stopAround]
    split
    · exact hrest.le
    · exact ih hrest

theorem stopAround_mono (h : Fills start pieces stop) (hxy : x ≤ y) :
    stopAround x pieces ≤ stopAround y pieces := by
  induction pieces generalizing start with
  | nil => exact hxy
  | cons t rest ih =>
    obtain ⟨-, -, hrest⟩ := h
    rw [stopAround, stopAround]
    split
    · split
      · exact Nat.le_refl _
      · have := le_stopAround y rest
        omega
    · rw [if_neg (by omega)]
      exact ih hrest

theorem Fills.le_of_mem (h : Fills start pieces stop) {t : Token} (ht : t ∈ pieces) :
    start ≤ t.offset ∧ t.offset < t.stop := by
  induction pieces generalizing start with
  | nil => cases ht
  | cons u rest ih =>
    obtain ⟨rfl, hlt, hrest⟩ := h
    rcases List.mem_cons.1 ht with rfl | ht
    · exact ⟨Nat.le_refl _, hlt⟩
    · obtain ⟨hle, hproper⟩ := ih hrest ht
      exact ⟨by omega, hproper⟩

theorem Fills.pairwise (h : Fills start pieces stop) :
    pieces.Pairwise fun t u => t.stop ≤ u.offset := by
  induction pieces generalizing start with
  | nil => exact .nil
  | cons t rest ih =>
    obtain ⟨-, -, hrest⟩ := h
    exact .cons (fun u hu => (hrest.le_of_mem hu).1) (ih hrest)

theorem exists_startAround (h : Fills start pieces stop) (hx : start ≤ x) (hlt : x < stop) :
    ∃ (i : Nat) (hi : i < pieces.length), pieces[i].offset ≤ x ∧ x < pieces[i].stop ∧
      startAround x pieces = pieces[i].offset := by
  induction pieces generalizing start with
  | nil =>
    obtain rfl : start = stop := h
    omega
  | cons t rest ih =>
    obtain ⟨rfl, -, hrest⟩ := h
    rw [startAround]
    split
    · next hstop => exact ⟨0, Nat.zero_lt_succ _, hx, hstop, rfl⟩
    · next hge =>
      obtain ⟨i, hi, hfound⟩ := ih hrest (Nat.le_of_not_lt hge)
      exact ⟨i + 1, Nat.succ_lt_succ hi, hfound⟩

theorem exists_stopAround (h : Fills start pieces stop) (hx : start ≤ x) (hlt : x < stop) :
    ∃ (i : Nat) (hi : i < pieces.length), pieces[i].offset ≤ x ∧ x < pieces[i].stop ∧
      stopAround (x + 1) pieces = pieces[i].stop := by
  induction pieces generalizing start with
  | nil =>
    obtain rfl : start = stop := h
    omega
  | cons t rest ih =>
    obtain ⟨rfl, -, hrest⟩ := h
    rw [stopAround]
    split
    · next hstop => exact ⟨0, Nat.zero_lt_succ _, hx, hstop, rfl⟩
    · next hge =>
      obtain ⟨i, hi, hfound⟩ := ih hrest (Nat.le_of_not_lt hge)
      exact ⟨i + 1, Nat.succ_lt_succ hi, hfound⟩

end Grammar

/-! ### Origins -/

namespace Origins

open Grammar

/-- The origins of a document whose tokens go through the processing as they are. -/
def verbatim (file : String) (pieces : List Token) (sources : Sources) : Origins where
  file
  stream := .verbatim file pieces
  sources
  offsets := offsetsOf (TokenStream.verbatim file pieces).tokens

variable {file : String} {pieces : List Token} {sources : Sources} {size x y : Nat}

@[simp]
theorem file_verbatim : (verbatim file pieces sources).file = file := rfl

@[simp]
theorem sources_verbatim : (verbatim file pieces sources).sources = sources := rfl

theorem bytesBefore_verbatim {start i : Nat} (h : Fills start pieces size) (hi : i < pieces.length) :
    start + (TokenStream.verbatim file pieces).bytesBefore i = pieces[i].offset := by
  induction pieces generalizing start i with
  | nil => cases hi
  | cons t rest ih =>
    obtain ⟨rfl, -, hrest⟩ := h
    cases i with
    | zero => rfl
    | succ i =>
      rw [List.getElem_cons_succ, ← ih hrest (Nat.lt_of_succ_lt_succ hi)]
      simp [TokenStream.bytesBefore, TokenStream.verbatim, PostToken.ofPiece, Token.stop,
        Nat.add_assoc]

theorem tokens_verbatim (file : String) {i : Nat} (hi : i < pieces.length) :
    (TokenStream.verbatim file pieces).tokens[i]? = some (.ofPiece pieces[i]) := by
  simp [TokenStream.verbatim, hi]

/-- The token at a place is the one that the place lies in. -/
theorem tokenAt?_verbatim (h : Fills 0 pieces size) {i : Nat} (hi : i < pieces.length)
    (hle : pieces[i].offset ≤ x) (hlt : x < pieces[i].stop) :
    (verbatim file pieces sources).tokenAt? x = some i := by
  have hbefore : 0 + (TokenStream.verbatim file pieces).bytesBefore i = pieces[i].offset :=
    bytesBefore_verbatim h hi
  have hbehind := TokenStream.bytesBefore_succ (tokens_verbatim file hi)
  rw [Nat.zero_add] at hbefore
  rw [hbefore] at hbehind
  refine tokenAt?_eq rfl ?_ (hbefore ▸ hle) (hbehind ▸ hlt)
  simpa [verbatim, TokenStream.verbatim] using hi

theorem addToken_verbatim (segments : List Segment) {i : Nat} (hi : i < pieces.length) :
    (verbatim file pieces sources).addToken segments i =
      Segment.add segments file 0 (.ofPiece pieces[i]) := by
  have hruns : (TokenStream.verbatim file pieces).runs = #[⟨file, 0⟩] := by
    cases pieces with
    | nil => simp at hi
    | cons => rfl
  have hrun : (TokenStream.verbatim file pieces).InRun i 0 file :=
    ⟨⟨0, Nat.zero_le i, by simp [hruns]⟩, by simp [hruns]⟩
  have hfound := hrun.runOf?_eq (by simp [hruns])
  simp only [addToken, verbatim, tokens_verbatim file hi, hfound, hruns]
  rfl

/-- Tokens in a row are one segment. -/
theorem foldl_addToken_verbatim (h : Fills 0 pieces size) {i : Nat} (hi : i < pieces.length)
    (n : Nat) (hn : i + n < pieces.length) :
    (List.range' i (n + 1)).foldl (verbatim file pieces sources).addToken [] =
      [⟨file, pieces[i].offset, pieces[i + n].stop, 0⟩] := by
  induction n with
  | zero => exact addToken_verbatim [] hi
  | succ n ih =>
    have hbefore : i + n < pieces.length := Nat.lt_of_succ_lt hn
    have hfirst := List.pairwise_iff_getElem.1 h.pairwise i (i + (n + 1)) hi hn (by omega)
    have hlast := List.pairwise_iff_getElem.1 h.pairwise (i + n) (i + (n + 1)) hbefore hn (by omega)
    have hstart := (h.le_of_mem (List.getElem_mem hi)).2
    have hstop := (h.le_of_mem (List.getElem_mem hn)).2
    have haccepts : (⟨file, pieces[i].offset, pieces[i + n].stop, 0⟩ : Segment).accepts file 0
        (.ofPiece pieces[i + (n + 1)]) = true := by
      have hle : pieces[i].offset ≤ pieces[i + (n + 1)].offset := by omega
      simp [Segment.accepts, PostToken.ofPiece, hle]
    have hmax : max pieces[i + n].stop pieces[i + (n + 1)].stop = pieces[i + (n + 1)].stop := by
      omega
    rw [List.range'_1_concat, List.foldl_append, ih hbefore, List.foldl_cons, List.foldl_nil,
      addToken_verbatim _ hn, Segment.add, if_pos haccepts, Segment.extend, PostToken.ofPiece, hmax]

/-- A stretch is traced back to the tokens that it touches. -/
theorem segments_verbatim (h : Fills 0 pieces size) (hxy : x < y) (hy : y ≤ size) :
    (verbatim file pieces sources).segments x y =
      [⟨file, startAround x pieces, stopAround y pieces, 0⟩] := by
  obtain ⟨i, hi, hile, hilt, hstart⟩ := exists_startAround h (Nat.zero_le x) (by omega)
  obtain ⟨j, hj, hjle, hjlt, hstop⟩ := exists_stopAround h (Nat.zero_le (y - 1)) (by omega)
  have hij : i ≤ j := by
    refine Nat.le_of_not_lt fun hlt => ?_
    have hbefore := List.pairwise_iff_getElem.1 h.pairwise j i hj hi hlt
    omega
  obtain ⟨n, rfl⟩ := Nat.exists_eq_add_of_le hij
  have hmax : max (y - 1) x = y - 1 := by omega
  have hcount : i + n + 1 - i = n + 1 := by omega
  rw [show y - 1 + 1 = y by omega] at hstop
  simp only [segments, hmax, tokenAt?_verbatim h hi hile hilt, tokenAt?_verbatim h hj hjle hjlt,
    hcount, foldl_addToken_verbatim h hi n hj, hstart, hstop]
  rfl

variable {text : String}

theorem definition_verbatim (h : Fills 0 pieces size) (hsource : sources.get? file = some text)
    (hxy : x < y) (hy : y ≤ size) :
    (verbatim file pieces sources).definition x y =
      .single (Text.range text (startAround x pieces) (stopAround y pieces)) := by
  simp [definition, segments_verbatim h hxy hy, range, hsource]

theorem location_verbatim (h : Fills 0 pieces size) (hsource : sources.get? file = some text)
    (hxy : x < y) (hy : y ≤ size) :
    (verbatim file pieces sources).location x y =
      some ⟨none, Text.range text (startAround x pieces) (stopAround y pieces)⟩ := by
  simp [location, segments_verbatim h hxy hy, range, hsource]

end Origins

/-! ### Documents -/

namespace Text

open Grammar

variable (text : String) {x y : Nat}

/-- Where the token of a text starts that a place lies in. -/
def startAround (x : Nat) : Nat := Grammar.startAround x (directives.tokenize text)

/-- Where the token of a text stops that a stretch up to a place ends in. -/
def stopAround (y : Nat) : Nat := Grammar.stopAround y (directives.tokenize text)

theorem startAround_le (x : Nat) : startAround text x ≤ x :=
  (Grammar.startAround_le (Lexeme.tiling_lex text).fills (Nat.zero_le x)).2

theorem startAround_mono (h : x ≤ y) : startAround text x ≤ startAround text y :=
  Grammar.startAround_mono (Lexeme.tiling_lex text).fills (Nat.zero_le x) h

theorem le_stopAround (y : Nat) : y ≤ stopAround text y := Grammar.le_stopAround y _

theorem stopAround_mono (h : x ≤ y) : stopAround text x ≤ stopAround text y :=
  Grammar.stopAround_mono (Lexeme.tiling_lex text).fills h

theorem stopAround_le (h : y ≤ text.utf8ByteSize) : stopAround text y ≤ text.utf8ByteSize :=
  Grammar.stopAround_le (Lexeme.tiling_lex text).fills h

end Text

/-- What it is for the places in a processed document to be those in a text, with stretches widened to
whole tokens of the text. -/
structure Document.Mirrors (doc : Document) (text : String) : Prop where
  size : doc.text.utf8ByteSize ≤ text.utf8ByteSize
  definition : ∀ x y, x < y → y ≤ doc.text.utf8ByteSize → doc.origins.definition x y =
    .single (Text.range text (Text.startAround text x) (Text.stopAround text y))
  location : ∀ x y, x < y → y ≤ doc.text.utf8ByteSize → doc.origins.location x y =
    some ⟨none, Text.range text (Text.startAround text x) (Text.stopAround text y)⟩

theorem Document.mirrors_of_empty {doc : Document} (h : doc.text = "") (text : String) :
    doc.Mirrors text := by
  have hsize : doc.text.utf8ByteSize = 0 := by rw [h]; rfl
  -- No stretch of an empty text has anything in it.
  exact ⟨by omega, fun x y hxy hy => by omega, fun x y hxy hy => by omega⟩

theorem Document.mirrors_verbatim {text : String} (file : String) {sources : Sources}
    (hsource : sources.get? file = some text) :
    (⟨.verbatim file (Grammar.directives.tokenize text) sources, text⟩ : Document).Mirrors text where
  size := Nat.le_refl _
  definition := fun _ _ => Origins.definition_verbatim (Lexeme.tiling_lex text).fills hsource
  location := fun _ _ => Origins.location_verbatim (Lexeme.tiling_lex text).fills hsource

/-- A document without directives is its text, or nothing at all if it is too large. -/
theorem Preprocess.mirrors_document {text : String} (h : Text.IsPlain text) (env : Env)
    (cache : IncludeCache) (file : String) :
    (document env cache file text).1.symbols = [] ∧
      (Document.ofPreprocessed (document env cache file text).1).Mirrors text ∧
      ((document env cache file text).1.stream.text = "" ∨
        text.utf8ByteSize ≤ env.options.limits.fileSize) := by
  unfold document
  dsimp only
  split
  · exact ⟨rfl, Document.mirrors_of_empty rfl text, .inl rfl⟩
  · next hsize =>
    obtain ⟨hsymbols, hstream, hsources⟩ := process_of_plain env [Path.normalize ⟨file⟩] file text h
      env.options.limits.includeDepth (startState env cache)
    have htext : (TokenStream.verbatim file (Grammar.directives.tokenize text)).text = text := by
      rw [TokenStream.text_verbatim, (Lexeme.tiling_lex text).text]
    refine ⟨hsymbols, ?_, .inr (Nat.le_of_not_lt hsize)⟩
    simp only [Document.ofPreprocessed, Origins.ofPreprocessed, hstream, hsources, htext]
    exact Document.mirrors_verbatim file (by simp [Sources.get?_insert])

end HdlIndex
