import HdlIndex.Proofs.Outline.Layout

/-! The tokens of a text that count. From the first context on, the grammar of declarations reads a text
segment by segment: a comment, an attribute or a literal as a whole, and what else there is piece by piece.
Main statement: for every text, the tokens that an outline is read from are in order, stand in the text as
they are, take in every piece that counts, have only blanks, comments and attributes between them, and each
string literal is one of them. -/

namespace HdlIndex

open Grammar

namespace OutlineToken

/-! ### Tokens and their scopes -/

/-- Whether a scope makes a token a part of a comment, an attribute or a literal. -/
def encloses (scope : String) : Bool := enclosingScopes.contains scope

/-- The scopes of blanks, comments and attributes. -/
def triviaScopes : List String :=
  [Role.blank.scope, Role.lineComment.scope, Role.blockComment.scope, Role.attributeList.scope]

section

variable {s : Stacks} {t : Token} {scope : String}

theorem hasScope_iff (ht : t.scopes = s.scopes.reverse ++ [scope]) (name : String) :
    t.hasScope name = true ↔ name ∈ s.scopes ∨ name = scope := by
  rw [Token.hasScope, ht]
  simp

variable (hs : s.Unmarked encloses)
include hs

theorem hasScope_eq (ht : t.scopes = s.scopes.reverse ++ [scope]) {name : String}
    (hname : name ∈ enclosingScopes) : t.hasScope name = (name == scope) := by
  rw [Bool.eq_iff_iff, hasScope_iff ht, beq_iff_eq]
  refine or_iff_right fun hmem => ?_
  have hnot := hs name hmem
  rw [encloses, List.contains_iff_mem.2 hname] at hnot
  cases hnot

theorem inString_eq (ht : t.scopes = s.scopes.reverse ++ [scope]) :
    inString t = (Role.string.scope == scope) := hasScope_eq hs ht (by decide)

theorem isTrivia_eq (ht : t.scopes = s.scopes.reverse ++ [scope]) : isTrivia t =
    (scope == Role.blank.scope || scope == Role.lineComment.scope ||
      Role.blockComment.scope == scope || Role.attributeList.scope == scope) := by
  have hscope : t.scope = scope := by
    rw [Token.scope, ht]
    simp
  rw [isTrivia, hscope, hasScope_eq hs ht (by decide), hasScope_eq hs ht (by decide)]

/-- A token whose scope does not hide it counts. -/
theorem counts_of_scopes (ht : t.scopes = s.scopes.reverse ++ [scope]) (hscope : scope ∉ hiddenScopes) :
    isTrivia t = false ∧ inString t = false := by
  rw [isTrivia_eq hs ht, inString_eq hs ht]
  simp only [hiddenScopes, enclosingScopes, List.mem_cons, List.not_mem_nil, or_false, not_or] at hscope
  obtain ⟨hblank, hline, hblock, hattribute, hstring, -⟩ := hscope
  simp [hblank, hline, Ne.symm hblock, Ne.symm hattribute, Ne.symm hstring]

theorem trivia_of_scopes (ht : t.scopes = s.scopes.reverse ++ [scope]) (hscope : scope ∈ triviaScopes) :
    isTrivia t = true ∧ inString t = false := by
  rw [isTrivia_eq hs ht, inString_eq hs ht]
  simp only [triviaScopes, List.mem_cons, List.not_mem_nil, or_false] at hscope
  rcases hscope with rfl | rfl | rfl | rfl <;> decide

/-- A token from inside a literal goes on with it. -/
theorem goesOn_of_scopes (h : GoesOn (s.scopes.reverse ++ [Role.string.scope]) t) :
    inString t = true ∧ endsString t = false := by
  rcases h with ⟨ht, htext⟩ | ht
  · refine ⟨by rw [inString_eq hs ht, beq_self_eq_true], ?_⟩
    rw [endsString, beq_false_of_ne htext, Bool.false_and]
  · have hscope (name : String) (hname : name ∈ [Role.string.scope, Role.stringEscape.scope]) :
        t.hasScope name = true := by
      rw [Token.hasScope, ht, List.contains_iff_mem, List.append_assoc]
      exact List.mem_append_right _ hname
    refine ⟨hscope _ (by decide), ?_⟩
    rw [endsString, hscope _ (by decide), Bool.not_true, Bool.and_false]

/-- The quote that closes a literal ends it. -/
theorem endsString_of_scopes (ht : t.scopes = s.scopes.reverse ++ [Role.string.scope])
    (htext : t.text = "\"") : inString t = true ∧ endsString t = true := by
  refine ⟨by rw [inString_eq hs ht, beq_self_eq_true], ?_⟩
  rw [endsString, htext, hasScope_eq hs ht (by decide)]
  decide

end

/-! ### Segments -/

/-- Whether a scan is in the first context, inside of no comment, attribute or literal. -/
structure AtTop (st : ScanState) : Prop where
  frames : st.current.frames = [⟨structural.main, 0⟩]
  unmarked : st.current.Unmarked encloses

theorem AtTop.contextIn {st : ScanState} (h : AtTop st) :
    structural.contextIn st.current = structural.main := contextIn_of_frames h.frames

/-- The action of a rule without a mark of its own opens no scope that hides tokens. -/
theorem AtTop.applyRule {st : ScanState} (h : AtTop st) {rule : Rule} (hrule : rule.isPlain = true) :
    AtTop (structural.applyRule st rule) := by
  simp only [Rule.isPlain, Bool.and_eq_true] at hrule
  obtain ⟨⟨⟨-, hsnapshot⟩, haction⟩, -⟩ := hrule
  rw [Grammar.applyRule, Option.isNone_iff_eq_none.1 hsnapshot]
  dsimp only
  split
  · exact h
  · next action haction' =>
    rw [haction'] at haction
    cases action with
    | push => cases haction
    | pop => cases haction
    | popScopes names => exact ⟨h.frames, unmarked_unwind h.unmarked names⟩
    | pushScopes names =>
      refine ⟨h.frames, fun scope hscope => ?_⟩
      rcases List.mem_append.1 hscope with hnew | hold
      · simpa [encloses] using List.all_eq_true.1 haction scope (List.mem_reverse.1 hnew)
      · exact h.unmarked scope hold

/-- If a literal starts a text, it is one of some tokens. -/
def HasLiteral (offset : Nat) (text : List Char) (tokens : List OutlineToken) : Prop :=
  ∀ more, text = '"' :: more →
    ∃ inner behind, Literal more inner behind ∧ ofLiteral offset inner ∈ tokens

theorem HasLiteral.mono {offset : Nat} {text : List Char} {tokens more : List OutlineToken}
    (h : HasLiteral offset text tokens) (hsub : tokens ⊆ more) : HasLiteral offset text more := by
  intro chars hchars
  obtain ⟨inner, behind, hliteral, hmem⟩ := h chars hchars
  exact ⟨inner, behind, hliteral, hsub hmem⟩

theorem hasLiteral_of_ne {offset : Nat} {text : List Char} {tokens : List OutlineToken}
    (h : text.head? ≠ some '"') : HasLiteral offset text tokens :=
  fun _ hmore => absurd (congrArg List.head? hmore) h

/-- What a scan reads from one point in the first context to another one, or to the end of the text, and
what tokens it becomes. In between, the scan is in other contexts. -/
structure Segment (p q : ScanPoint) : Prop where
  leads : structural.Leads p q
  pending : q.pending = []
  shorter : q.rest.length < p.rest.length
  top : q.rest = [] ∨ AtTop q.state
  only : ∀ r, structural.Leads p r → structural.contextIn r.state.current = structural.main →
    r = p ∨ structural.Leads q r
  lays : ∃ (pieces : List Token) (tokens : List OutlineToken),
    q.out = structural.flushed p ++ pieces ∧ HasLiteral p.offset p.rest tokens ∧
    ∀ more others, LaidOut q.offset q.rest more others →
      LaidOut p.offset p.rest (pieces ++ more) (tokens ++ others)

section

variable {p : ScanPoint} {chars rest : List Char} {pieces : List Token} (tokens : List OutlineToken)

/-- One step that reads what is not a literal. -/
theorem segment_of_step {st : ScanState} (hrest : p.rest = chars ++ rest) (hne : chars ≠ [])
    (hquote : p.rest.head? ≠ some '"') (htop : AtTop st)
    (hstep : structural.step? p =
      some ⟨st, p.offset + Text.byteSize chars, [], structural.flushed p ++ pieces, rest⟩)
    (hlays : ∀ more others, LaidOut (p.offset + Text.byteSize chars) rest more others →
      LaidOut p.offset (chars ++ rest) (pieces ++ more) (tokens ++ others)) : ∃ q, Segment p q := by
  refine ⟨_, .step hstep (.refl _), rfl, length_rest_lt hrest hne, .inr htop,
    fun r hr _ => hr.cases_step hstep, pieces, tokens, rfl, hasLiteral_of_ne hquote, ?_⟩
  rw [hrest]
  exact hlays

/-- A way through another context. -/
theorem segment_of_through {context : Nat} {behind : Option (List Char)} (htop : AtTop p.state)
    (hrest : p.rest = chars ++ behind.getD []) (hne : chars ≠ []) (hcontext : context ≠ structural.main)
    (hthrough : structural.LeadsThrough p context chars behind pieces)
    (hliteral : HasLiteral p.offset p.rest tokens)
    (hlays : ∀ more others, LaidOut (p.offset + Text.byteSize chars) (behind.getD []) more others →
      LaidOut p.offset (chars ++ behind.getD []) (pieces ++ more) (tokens ++ others)) :
    ∃ q, Segment p q := by
  refine ⟨_, hthrough.leads, rfl, length_rest_lt hrest hne, ?_, fun r hr hmain => ?_, pieces, tokens, rfl,
    hliteral, hrest ▸ hlays⟩
  · cases behind with
    | none => exact .inl rfl
    | some rest => exact .inr htop
  · rcases hthrough.inside r hr with hr | hr | hr
    · exact .inl hr
    · rw [hr] at hmain
      exact absurd hmain hcontext
    · exact .inr hr

end

section

variable {p : ScanPoint} (htop : AtTop p.state)
include htop

theorem first_eq : firstMatch (structural.rulesAt (structural.contextIn p.state.current)) p.rest =
    firstMatch (structural.rulesAt structural.main) p.rest := by
  rw [htop.contextIn]

/-- A step over one token of trivia. -/
theorem exists_segment_trivia {chars rest : List Char} {source : String} {pattern : Pattern}
    {scope : String} (hrest : p.rest = chars ++ rest) (htrivia : Trivia chars rest)
    (hfirst : firstMatch (structural.rulesAt structural.main) p.rest =
      some (⟨source, pattern, [some scope], none, none⟩, ⟨0, chars.length, []⟩))
    (hscope : scope ∈ triviaScopes) (hquote : p.rest.head? ≠ some '"') : ∃ q, Segment p q := by
  rw [← first_eq htop] at hfirst
  have hstep := step?_single hrest htrivia.ne_nil hfirst rfl rfl rfl
  refine segment_of_step [] hrest htrivia.ne_nil hquote htop hstep fun more others hmore => ?_
  refine .trivia htrivia (.single htrivia.ne_nil _ _) ?_ hmore
  exact List.forall_mem_singleton.2 (trivia_of_scopes htop.unmarked rfl hscope)

/-- A comment or an attribute. -/
theorem exists_segment_block {chars : List Char} {behind : Option (List Char)} {pieces : List Token}
    {context : Nat} {scope : String} (hrest : p.rest = chars ++ behind.getD [])
    (htrivia : Trivia chars (behind.getD [])) (hcontext : context ≠ structural.main)
    (hthrough : structural.LeadsThrough p context chars behind pieces)
    (hscopes : ∀ t ∈ pieces, t.scopes = p.state.current.scopes.reverse ++ [scope])
    (hscope : scope ∈ triviaScopes) (hquote : p.rest.head? ≠ some '"') : ∃ q, Segment p q := by
  refine segment_of_through [] htop hrest htrivia.ne_nil hcontext hthrough
    (hasLiteral_of_ne hquote) fun more others hmore => ?_
  refine .trivia htrivia hthrough.tiles (fun t ht => ?_) hmore
  exact trivia_of_scopes htop.unmarked (hscopes t ht) hscope

theorem exists_segment_blank {c : Char} {cs : List Char} (hrest : p.rest = c :: cs)
    (hc : Text.isBlank c = true) : ∃ q, Segment p q := by
  have hne : p.rest.takeWhile Text.isBlank ≠ [] := by
    rw [hrest, List.takeWhile_cons_of_pos hc]
    exact List.cons_ne_nil _ _
  have hquote : p.rest.head? ≠ some '"' := by
    intro hhead
    rw [hrest] at hhead
    obtain rfl := Option.some.inj hhead
    cases hc
  have hfirst := first_blank hc cs
  rw [← hrest] at hfirst
  exact exists_segment_trivia htop List.takeWhile_append_dropWhile.symm
    (.blanks _ hne fun d hd => List.mem_takeWhile_imp hd) hfirst (by decide) hquote

theorem exists_segment_line {cs : List Char} (hrest : p.rest = '/' :: '/' :: cs) :
    ∃ q, Segment p q := by
  have hchars : p.rest = '/' :: '/' :: cs.takeWhile lineSet.has ++ cs.dropWhile lineSet.has := by
    rw [hrest, List.cons_append, List.cons_append, List.takeWhile_append_dropWhile]
  have hend : ∀ c ∈ (cs.dropWhile lineSet.has).head?, c = '\r' ∨ c = '\n' := by
    intro c hc
    have hhead := List.head?_dropWhile_not lineSet.has cs
    rw [Option.mem_def.1 hc] at hhead
    have hnot : lineSet.has c = false := hhead
    by_contra hneither
    rw [has_lineSet.2 (not_or.1 hneither)] at hnot
    cases hnot
  have hfirst := first_line cs
  rw [← hrest, Nat.add_comm 2] at hfirst
  exact exists_segment_trivia htop hchars
    (.line (fun d hd => has_lineSet.1 (List.mem_takeWhile_imp hd)) hend) hfirst (by decide)
    (by simp [hrest])

theorem exists_segment_comment {more : List Char} (hrest : p.rest = '/' :: '*' :: more) :
    ∃ q, Segment p q := by
  have hframes : p.state.current.frames ≠ [] := by simp [htop.frames]
  obtain ⟨inner, behind, tokens, hblock, hthrough, hscopes⟩ :=
    hasComments_structural.leadsThrough hframes htop.contextIn hrest
  have hchars : p.rest = '/' :: '*' :: inner ++ behind.getD [] := by
    rw [hrest, hblock.text_eq]
    rfl
  exact exists_segment_block htop hchars (.comment hblock) (by simp [main_structural]) hthrough hscopes
    (by decide) (by simp [hrest])

theorem exists_segment_attribute {more : List Char} (hrest : p.rest = '(' :: '*' :: more)
    (hopen : (more.dropWhile Text.isBlank).head? ≠ some ')') : ∃ q, Segment p q := by
  have hframes : p.state.current.frames ≠ [] := by simp [htop.frames]
  have hfirst := first_attribute hopen
  rw [← hrest, ← first_eq htop] at hfirst
  obtain ⟨-, -, -, hrules, hscope, -⟩ := openings_structural
  obtain ⟨inner, behind, tokens, hblock, hthrough, hscopes⟩ := leadsThrough_block hframes
    (show p.rest = ['(', '*'] ++ more from hrest) (by simp) hfirst hrules hscope
  have hchars : p.rest = '(' :: '*' :: inner ++ behind.getD [] := by
    rw [hrest, hblock.text_eq]
    rfl
  exact exists_segment_block htop hchars (.attributes hopen hblock) (by simp [main_structural]) hthrough
    hscopes (by decide) (by simp [hrest])

theorem exists_segment_literal {more : List Char} (hrest : p.rest = '"' :: more) :
    ∃ q, Segment p q := by
  have hframes : p.state.current.frames ≠ [] := by simp [htop.frames]
  have hfirst := first_quote more
  rw [← hrest, ← first_eq htop] at hfirst
  obtain ⟨-, -, -, -, -, hrules, hscope⟩ := openings_structural
  obtain ⟨inner, behind, tokens, last, hliteral, hreads, htokens, hclosed, hlast⟩ :=
    readsLiteral (p := p.enter structural 3 ['"'] more (some Role.string.scope)) hrules rfl
  have hthrough := leadsThrough hframes (show p.rest = ['"'] ++ more from hrest) (by simp) hfirst hreads
  have hscopes : (p.enter structural 3 ['"'] more (some Role.string.scope)).state.current.scopes.reverse =
      p.state.current.scopes.reverse ++ [Role.string.scope] := by
    rw [ScanPoint.enter, enter, hscope]
    exact List.reverse_cons
  rw [hscopes] at htokens hlast
  have hchars : p.rest = '"' :: inner ++ behind.getD [] := by
    rw [hrest]
    exact congrArg _ hliteral.text_eq
  have hfound : HasLiteral p.offset p.rest [ofLiteral p.offset inner] := by
    intro more' hmore'
    obtain rfl : more = more' := (List.cons.inj (hrest.symm.trans hmore')).2
    exact ⟨inner, behind, hliteral, List.mem_singleton_self _⟩
  refine segment_of_through [ofLiteral p.offset inner] htop hchars (List.cons_ne_nil _ _)
    (by simp [main_structural]) hthrough hfound fun others tokens' hmore => ?_
  rw [← hchars, hrest]
  refine .literal hliteral hthrough.tiles ?_ (fun t ht => goesOn_of_scopes htop.unmarked (htokens t ht))
    (fun t ht => ?_) hclosed hmore
  · exact (inString_eq htop.unmarked rfl).trans (beq_self_eq_true _)
  · exact endsString_of_scopes htop.unmarked (hlast t ht).2 (hlast t ht).1

theorem exists_segment_plain {rule : Rule} {m : Match} (hplain : rule.isPlain = true)
    (hfirst : firstMatch (structural.rulesAt structural.main) p.rest = some (rule, m))
    (hm : rule.pattern.match? p.rest = some m) (hstart : PlainStart p.rest) : ∃ q, Segment p q := by
  obtain ⟨piece, rest, scope, hread⟩ := exists_readsPlain hplain hm
  rw [← first_eq htop] at hfirst
  have hstep := step?_single hread.text hread.nonempty hfirst hread.start hread.stop hread.scopes
  obtain ⟨htrivia, hstring⟩ := counts_of_scopes htop.unmarked
    (t := p.token piece (some scope)) rfl hread.scope
  refine segment_of_step [ofPlain (p.token piece (some scope))] hread.text hread.nonempty hstart.noQuote
    (htop.applyRule hplain) hstep fun more others hmore => ?_
  exact .piece hread.nonempty (hread.text ▸ hstart) hread.quote (by simp) htrivia hstring hmore

theorem exists_segment_package {m : Match}
    (hfirst : firstMatch (structural.rulesAt structural.main) p.rest = some (packageRule, m))
    (hm : packageRule.pattern.match? p.rest = some m) (hstart : PlainStart p.rest) :
    ∃ q, Segment p q := by
  obtain ⟨name, blanks, rest, hread⟩ := exists_readsPackage hm
  rw [← first_eq htop] at hfirst
  have hchars : p.rest = name ++ (blanks ++ [':', ':']) ++ rest := by
    rw [hread.text, List.append_assoc, List.append_assoc]
    rfl
  have hne : name ++ (blanks ++ [':', ':']) ≠ [] := by simp
  have htokens := hread.matchTokens_eq p.offset p.state.current.scopes.reverse
  have hstep := step?_matched hchars hne hfirst hread.stop htokens
  refine segment_of_step
    [ofPlain ⟨.ofList name, p.offset, p.state.current.scopes.reverse ++ [Role.packageName.scope]⟩,
      ofPlain ⟨.ofList [':', ':'], p.offset + Text.byteSize (name ++ blanks),
        p.state.current.scopes.reverse ++ [Role.scopeResolution.scope]⟩]
    hchars hne hstart.noQuote htop hstep fun more others hmore => ?_
  have hcounts (piece : List Char) (offset : Nat) (scope : String) (hscope : scope ∉ hiddenScopes) :=
    counts_of_scopes htop.unmarked
      (t := ⟨.ofList piece, offset, p.state.current.scopes.reverse ++ [scope]⟩) rfl hscope
  obtain ⟨hname, hname'⟩ := hcounts name p.offset Role.packageName.scope (by decide)
  obtain ⟨hcolons, hcolons'⟩ := hcounts [':', ':'] (p.offset + Text.byteSize (name ++ blanks))
    Role.scopeResolution.scope (by decide)
  have hstart' : PlainStart ([':', ':'] ++ rest) := ⟨by simp; decide, by simp, by simp, by simp⟩
  have hsize : p.offset + Text.byteSize (name ++ (blanks ++ [':', ':'])) =
      p.offset + Text.byteSize (name ++ blanks) + Text.byteSize [':', ':'] := by
    rw [Nat.add_assoc, ← Text.byteSize_append, List.append_assoc]
  have hlast := LaidOut.piece (by simp) hstart' (by simp) (by simp) hcolons hcolons' (hsize ▸ hmore)
  rw [Text.byteSize_append, ← Nat.add_assoc] at hlast
  have hmiddle := hlast.blanks hread.allBlank
    (trivia_of_scopes htop.unmarked rfl (show Role.blank.scope ∈ triviaScopes by decide))
  have hall := LaidOut.piece hread.nonempty (hread.text ▸ hstart) (absurd · hread.quote) (by simp) hname
    hname' hmiddle
  simpa [Text.byteSize_append, Nat.add_assoc] using hall

/-- Where a rule matches, there is a segment. -/
theorem exists_segment {c : Char} {cs : List Char} (hrest : p.rest = c :: cs) {rule : Rule} {m : Match}
    (hfirst : firstMatch (structural.rulesAt structural.main) (c :: cs) = some (rule, m)) :
    ∃ q, Segment p q := by
  rcases opening_cases c cs with
    hblank | rfl | ⟨more, hmore⟩ | ⟨more, hmore⟩ | ⟨more, hmore, hopen⟩ | hstart
  · exact exists_segment_blank htop hrest hblank
  · exact exists_segment_literal htop hrest
  · exact exists_segment_line htop (hrest.trans hmore)
  · exact exists_segment_comment htop (hrest.trans hmore)
  · exact exists_segment_attribute htop (hrest.trans hmore) hopen
  · obtain ⟨hrule, hm⟩ := plain_of_first hstart hfirst
    rw [← hrest] at hstart hfirst hm
    rcases hrule with hplain | rfl
    · exact exists_segment_plain htop hplain hfirst hm hstart
    · exact exists_segment_package htop hfirst hm hstart

end

/-! ### Whole texts -/

/-- A point in the first context, with what is in front of it that no rule matched. -/
structure Underway (base : Nat) (p : ScanPoint) : Prop where
  top : AtTop p.state
  offset : p.offset = base + Text.byteSize p.pending
  noQuote : '"' ∉ p.pending
  start : p.pending ≠ [] → PlainStart (p.pending.reverse ++ p.rest)

/-- What comes of a scan from a point on: pieces and the tokens made of them, with all the literals that the
scan comes to. -/
structure Becomes (base : Nat) (p : ScanPoint) (pieces : List Token) (tokens : List OutlineToken) :
    Prop where
  result : structural.result p = .ok (p.out ++ pieces)
  laidOut : LaidOut base (p.pending.reverse ++ p.rest) pieces tokens
  literals : ∀ r, structural.Leads p r → structural.contextIn r.state.current = structural.main →
    HasLiteral r.offset r.rest tokens

section

variable {base : Nat} {p q : ScanPoint} {pieces : List Token} {tokens : List OutlineToken}

theorem underway_of_pending (htop : AtTop p.state) (hpending : p.pending = []) : Underway p.offset p where
  top := htop
  offset := by rw [hpending, Text.byteSize, Nat.add_zero]
  noQuote := by simp [hpending]
  start := absurd hpending

/-- The characters in front that no rule matched are a piece of their own. -/
theorem Underway.exists_front (hp : Underway base p) (h : LaidOut p.offset p.rest pieces tokens) :
    ∃ front, LaidOut base (p.pending.reverse ++ p.rest)
      (structural.unmatchedToken p.state.current.scopes.reverse p.offset p.pending ++ pieces)
      (front ++ tokens) := by
  have hoffset := hp.offset
  rw [unmatchedToken]
  by_cases hempty : p.pending = []
  · rw [hempty, Text.byteSize, Nat.add_zero] at hoffset
    rw [hempty, ← hoffset]
    exact ⟨[], h⟩
  · have hbase : p.offset - Text.byteSize p.pending = base := by rw [hoffset, Nat.add_sub_cancel]
    have hne : p.pending.reverse ≠ [] := by simpa using hempty
    rw [if_neg (by simpa using hempty), hbase]
    rw [hoffset, ← Text.byteSize_reverse] at h
    obtain ⟨htrivia, hstring⟩ := counts_of_scopes hp.top.unmarked
      (t := ⟨.ofList p.pending.reverse, base, p.state.current.scopes.reverse ++ [structural.invalidScope]⟩)
      rfl invalidScope_structural
    exact ⟨[_], .piece hne (hp.start hempty) (by simp [hp.noQuote]) (by simp) htrivia hstring h⟩

theorem becomes_of_nil (hrest : p.rest = []) (hpending : p.pending = []) : Becomes p.offset p [] [] where
  result := by
    rw [result_of_nil hrest, flushed_of_nil hpending]
    rfl
  laidOut := by
    rw [hrest, hpending]
    exact .nil p.offset
  literals r hr _ more hmore := by
    rw [hr.eq_of_nil hrest, hrest] at hmore
    cases hmore

theorem Underway.exists_becomes_of_nil (hp : Underway base p) (hrest : p.rest = []) :
    ∃ pieces tokens, Becomes base p pieces tokens := by
  obtain ⟨front, hlaid⟩ := hp.exists_front (hrest ▸ LaidOut.nil p.offset)
  rw [List.append_nil, List.append_nil] at hlaid
  refine ⟨_, front, result_of_nil hrest, hlaid, fun r hr _ more hmore => ?_⟩
  rw [hr.eq_of_nil hrest, hrest] at hmore
  cases hmore

section

variable {c : Char} {cs : List Char} (hrest : p.rest = c :: cs)
include hrest

/-- One more character that no rule matches. -/
theorem Underway.unmatched (hp : Underway base p) (hplain : PlainStart (c :: cs)) : Underway base
    { p with offset := p.offset + c.utf8Size, pending := c :: p.pending, rest := cs } where
  top := hp.top
  offset := by
    show p.offset + c.utf8Size = base + (c.utf8Size + Text.byteSize p.pending)
    rw [hp.offset, Nat.add_assoc, Nat.add_comm c.utf8Size]
  noQuote := by
    have hc : c ≠ '"' := fun hc => hplain.noQuote (congrArg some hc)
    simp [hp.noQuote, Ne.symm hc]
  start _ := by
    rw [List.reverse_cons, List.append_assoc, List.singleton_append, ← hrest]
    by_cases hempty : p.pending = []
    · rwa [hempty, List.reverse_nil, List.nil_append, hrest]
    · exact hp.start hempty

theorem Becomes.unmatched (hplain : PlainStart (c :: cs)) (hstep : structural.step? p =
      some { p with offset := p.offset + c.utf8Size, pending := c :: p.pending, rest := cs })
    (h : Becomes base { p with offset := p.offset + c.utf8Size, pending := c :: p.pending, rest := cs }
      pieces tokens) : Becomes base p pieces tokens where
  result := (result_of_step? hstep).trans h.result
  laidOut := by
    have hlaid := h.laidOut
    rwa [List.reverse_cons, List.append_assoc, List.singleton_append, ← hrest] at hlaid
  literals r hr hmain := by
    rcases hr.cases_step hstep with rfl | hr
    · exact hasLiteral_of_ne (hrest ▸ hplain.noQuote)
    · exact h.literals r hr hmain

end

theorem Underway.exists_becomes_of_segment (hp : Underway base p) (hq : Segment p q)
    (h : Becomes q.offset q pieces tokens) : ∃ pieces tokens, Becomes base p pieces tokens := by
  obtain ⟨front, tokens', hout, hliteral, hlays⟩ := hq.lays
  have hlaid := h.laidOut
  rw [hq.pending, List.reverse_nil, List.nil_append] at hlaid
  obtain ⟨first, hfirst⟩ := hp.exists_front (hlays pieces tokens hlaid)
  refine ⟨_, _, ?_, hfirst, fun r hr hmain => ?_⟩
  · rw [hq.leads.result_eq, h.result, hout, flushed, append_tokens, append_tokens]
  · rcases hq.only r hr hmain with rfl | hr
    · exact hliteral.mono fun t ht => by simp [ht]
    · exact (h.literals r hr hmain).mono fun t ht => by simp [ht]

theorem Underway.exists_becomes (hp : Underway base p) : ∃ pieces tokens, Becomes base p pieces tokens := by
  -- A segment is more than one step, so the induction is on the length of the rest.
  induction hn : p.rest.length using Nat.strong_induction_on generalizing p base with
  | _ n ih =>
    subst hn
    rcases hrest : p.rest with _ | ⟨c, cs⟩
    · exact hp.exists_becomes_of_nil hrest
    rcases hfirst : firstMatch (structural.rulesAt structural.main) (c :: cs) with _ | ⟨rule, m⟩
    · have hplain := plainStart_of_unmatched hfirst
      rw [← hp.top.contextIn] at hfirst
      have hstep := step?_unmatched hrest hfirst
      obtain ⟨pieces, tokens, h⟩ := ih cs.length (by simp [hrest]) (hp.unmatched hrest hplain) rfl
      exact ⟨pieces, tokens, h.unmatched hrest hplain hstep⟩
    · obtain ⟨q, hq⟩ := exists_segment hp.top hrest hfirst
      rcases hq.top with hend | htop
      · exact hp.exists_becomes_of_segment hq (becomes_of_nil hend hq.pending)
      · obtain ⟨pieces, tokens, h⟩ :=
          ih q.rest.length hq.shorter (underway_of_pending htop hq.pending) rfl
        exact hp.exists_becomes_of_segment hq h

theorem mem_scopes_startState {g : Grammar} {scope : String} :
    scope ∈ (g.startState none).current.scopes ↔ g.contexts[g.main]?.bind (·.scope) = some scope := by
  rw [startState, List.mem_reverse, Option.getD_none, Option.mem_toList]

theorem atTop_startState : AtTop (structural.startState none) := by
  have hscope : (structural.contexts[structural.main]?.bind (·.scope)).all (!encloses ·) = true := by
    rw [structural_eq_inPieces]
    decide +kernel
  refine ⟨by rw [startState], fun scope hmem => ?_⟩
  rw [mem_scopes_startState.1 hmem] at hscope
  simpa using hscope

end

/-- What it is for the tokens of a text to say what stands in it. -/
structure Faithful (text : String) (pieces : List Token) (tokens : List OutlineToken) : Prop where
  /-- The tokens are not empty, and they stand one behind another. -/
  inOrder : InOrder 0 tokens text.utf8ByteSize
  slice_eq : ∀ t ∈ tokens, Text.slice text t.start t.stop = t.text
  takesIn : ∀ piece ∈ pieces, isTrivia piece = false →
    ∃! t, t ∈ tokens ∧ t.start ≤ piece.offset ∧ piece.stop ≤ t.stop
  /-- Between a token and the next one there are only blanks, comments and attributes. -/
  between : ∀ front t u behind, tokens = front ++ t :: u :: behind →
    ∃ before gap rest, text.toList = before ++ (gap ++ rest) ∧ t.stop = Text.byteSize before ∧
      u.start = t.stop + Text.byteSize gap ∧ TriviaRow gap rest
  /-- The text is a row of trivia, literals and other pieces, and each literal is one token. -/
  layout : Layout 0 text.toList pieces tokens
  /-- Each quote that is read in the first context opens a literal that is one token. -/
  literals : ∀ p, structural.Leads (structural.startPoint text none) p →
    structural.contextIn p.state.current = structural.main → HasLiteral p.offset p.rest tokens

theorem Layout.faithful {text : String} {pieces : List Token} {tokens : List OutlineToken}
    (h : Layout 0 text.toList pieces tokens) (hpieces : Tiling text pieces)
    (horder : InOrder 0 tokens text.utf8ByteSize)
    (hliterals : ∀ p, structural.Leads (structural.startPoint text none) p →
      structural.contextIn p.state.current = structural.main → HasLiteral p.offset p.rest tokens) :
    Faithful text pieces tokens where
  inOrder := horder
  slice_eq t ht := by
    obtain ⟨before, chars, behind, htext, hpiece, hstart, hstop⟩ := h.exists_occurrence ht
    rw [Text.slice, htext, hstop, hstart, Nat.zero_add, Nat.add_sub_cancel_left, Text.dropBytes_append,
      Text.takeBytes_append, hpiece]
  takesIn piece hpiece hcounts := by
    obtain ⟨t, ht, hstart, hstop⟩ := h.exists_token hpiece hcounts
    have hpositive : 0 < piece.text.utf8ByteSize :=
      Nat.pos_of_ne_zero (mt String.utf8ByteSize_eq_zero_iff.1 (hpieces.nonempty piece hpiece))
    have hlt : piece.offset < piece.stop := Nat.lt_add_of_pos_right hpositive
    refine ⟨t, ⟨ht, hstart, hstop⟩, fun u hin => ?_⟩
    obtain ⟨hu, hstart', hstop'⟩ := hin
    exact horder.eq_of_overlap hu ht (by omega) (by omega)
  between front t u behind htokens := by
    obtain ⟨before, gap, rest, htext, hstop, hgap, hstart⟩ := (htokens ▸ h).exists_gap
    exact ⟨before, gap, rest, htext, by rw [hstop, Nat.zero_add], hstart, hgap⟩
  layout := h
  literals := hliterals

/-- The tokens that count say what stands in the text. -/
theorem significant_is_faithful (text : String) :
    Faithful text (structural.tokenize text) (significant (structural.tokenize text)) := by
  obtain ⟨pieces, tokens, hresult, hlaid, hliterals⟩ :=
    (underway_of_pending (p := structural.startPoint text none) atTop_startState rfl).exists_becomes
  have hpieces : structural.tokenize text = pieces := by
    rw [tokenize_of_leads (.refl _) hresult]
    simp [startPoint]
  have htokens : significant pieces = tokens := by
    rw [significant, hlaid.gathers]
    rfl
  have htiling : Tiling text (structural.tokenize text) :=
    (tiling_tokenize_ofDefs areTidy_structural text none).2
  have horder := inOrder_significant text
  rw [hpieces] at htiling horder ⊢
  rw [htokens] at horder ⊢
  exact hlaid.layout.faithful htiling horder hliterals

/-- Adjacent literals are two tokens, and an escaped quote ends none. -/
example : (significant (structural.tokenize "\"a\\\"\"\"\" //")).map (·.text) = ["\"a\\\"\"", "\"\""] := by
  rw [structural_eq_inPieces]
  decide +kernel

end OutlineToken

end HdlIndex
