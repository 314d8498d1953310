import HdlIndex.Grammar.Structural
import HdlIndex.Proofs.Grammar.Points
import HdlIndex.Proofs.Pattern.Runs
import Mathlib.Data.List.TakeWhile

/-! Contexts that one mark closes. Inside a comment or an attribute all is read up to the first star with
a certain character behind it, and inside a string literal up to the first quote that no backslash
escapes. Main statements: a scan inside such a context reads just that and leaves the context, or it
reads all of the text. -/

namespace HdlIndex

/-! ### What a mark closes -/

/-- What is read of a text up to the first star with a certain character behind it, and what comes behind
that; without such a star it is the whole text. -/
inductive Block (last : Char) : List Char → List Char → Option (List Char) → Prop
  | closed (body behind : List Char) (h : ¬['*', last] <:+: body ++ ['*']) :
      Block last (body ++ '*' :: last :: behind) (body ++ ['*', last]) (some behind)
  | unclosed {body : List Char} (h : ¬['*', last] <:+: body) : Block last body body none

/-- What is read of a text up to the first quote that is not behind a backslash, where a backslash takes
up the character behind it, and what comes behind that; without such a quote it is the whole text. -/
inductive Literal : List Char → List Char → Option (List Char) → Prop
  | closed (behind : List Char) : Literal ('"' :: behind) ['"'] (some behind)
  | plain {c : Char} {text inner : List Char} {behind : Option (List Char)} (hquote : c ≠ '"')
      (hescape : c ≠ '\\') (h : Literal text inner behind) : Literal (c :: text) (c :: inner) behind
  | escaped (c : Char) {text inner : List Char} {behind : Option (List Char)}
      (h : Literal text inner behind) : Literal ('\\' :: c :: text) ('\\' :: c :: inner) behind
  | backslash : Literal ['\\'] ['\\'] none
  | nil : Literal [] [] none

section

variable {last c : Char} {text inner front : List Char} {behind : Option (List Char)}

theorem Block.text_eq (h : Block last text inner behind) : text = inner ++ behind.getD [] := by
  cases h with
  | closed => simp
  | unclosed => simp

theorem Block.cons (hc : c = '*' → text.head? ≠ some last) (h : Block last text inner behind) :
    Block last (c :: text) (c :: inner) behind := by
  cases h with
  | closed body behind h =>
    refine .closed (c :: body) behind fun hinfix => ?_
    rcases List.infix_cons_iff.1 hinfix with hstart | hinside
    · obtain ⟨rfl, more, hmore⟩ := List.cons_prefix_cons.1 hstart
      refine hc rfl ?_
      cases body with
      | nil => exact congrArg List.head? hmore.symm
      | cons d body => exact congrArg List.head? hmore.symm
    · exact h hinside
  | unclosed h =>
    refine .unclosed fun hinfix => ?_
    rcases List.infix_cons_iff.1 hinfix with hstart | hinside
    · obtain ⟨rfl, more, rfl⟩ := List.cons_prefix_cons.1 hstart
      exact hc rfl rfl
    · exact h hinside

theorem Block.append (hfront : ∀ c ∈ front, c ≠ '*') (h : Block last text inner behind) :
    Block last (front ++ text) (front ++ inner) behind := by
  induction front with
  | nil => exact h
  | cons c front ih =>
    obtain ⟨hc, hfront⟩ := List.forall_mem_cons.1 hfront
    exact .cons (absurd · hc) (ih hfront)

theorem Literal.text_eq (h : Literal text inner behind) : text = inner ++ behind.getD [] := by
  induction h with
  | closed => rfl
  | plain _ _ _ ih => rw [ih, List.cons_append]
  | escaped c _ ih => rw [ih, List.cons_append, List.cons_append]
  | backslash => rfl
  | nil => rfl

theorem Literal.append (hfront : ∀ c ∈ front, c ≠ '"' ∧ c ≠ '\\') (h : Literal text inner behind) :
    Literal (front ++ text) (front ++ inner) behind := by
  induction front with
  | nil => exact h
  | cons c front ih =>
    obtain ⟨⟨hquote, hescape⟩, hfront⟩ := List.forall_mem_cons.1 hfront
    exact .plain hquote hescape (ih hfront)

end

namespace Grammar

open Pattern

/-! ### Inside a context -/

theorem firstMatch_of_match {rule : Rule} {rules : List Rule} {text : List Char} {m : Match}
    (h : rule.pattern.match? text = some m) : firstMatch (rule :: rules) text = some (rule, m) := by
  rw [firstMatch, h]

theorem firstMatch_of_none {rule : Rule} {rules : List Rule} {text : List Char}
    (h : rule.pattern.match? text = none) : firstMatch (rule :: rules) text = firstMatch rules text := by
  rw [firstMatch, h]

variable {g : Grammar} {p : ScanPoint}

/-- A context that was just entered is left as if it had not been. -/
theorem leave_enter {s : Stacks} (h : s.frames ≠ []) (context : Nat) : leave (g.enter context s) = s := by
  obtain ⟨frames, scopes⟩ := s
  obtain ⟨next, frames, rfl⟩ := List.exists_cons_of_ne_nil h
  simp [leave, enter]

theorem flushed_of_nil (h : p.pending = []) : g.flushed p = p.out := by
  rw [flushed, h]
  exact Array.toList_inj.1 (by simp [unmatchedToken])

/-- The point behind some characters that are read inside a context. The context is left if the mark that
closes it is among them. -/
def ScanPoint.past (p : ScanPoint) (inner : List Char) (behind : Option (List Char))
    (tokens : List Token) : ScanPoint where
  state := if behind.isSome then { p.state with current := leave p.state.current } else p.state
  offset := p.offset + Text.byteSize inner
  pending := []
  out := p.out ++ tokens
  rest := behind.getD []

/-- The point behind some characters that are one token and leave the state as it is. -/
def ScanPoint.pass (p : ScanPoint) (piece rest : List Char) (scope : Option String) : ScanPoint where
  state := p.state
  offset := p.offset + Text.byteSize piece
  pending := []
  out := p.out ++ [p.token piece scope]
  rest := rest

/-- What a scan reads inside a context, and as which tokens. -/
structure Reads (g : Grammar) (p : ScanPoint) (inner : List Char) (behind : Option (List Char))
    (tokens : List Token) : Prop where
  tiles : Tiles p.offset inner tokens
  leads : g.Leads p (p.past inner behind tokens)
  /-- The state is the same all along. -/
  inside : ∀ q, g.Leads p q → q.state = p.state ∨ g.Leads (p.past inner behind tokens) q

theorem reads_nil (hrest : p.rest = []) (hpending : p.pending = []) : g.Reads p [] none [] where
  tiles := .nil _
  leads := by
    have hpast : p.past [] none [] = p := by
      obtain ⟨state, offset, pending, out, rest⟩ := p
      obtain rfl : rest = [] := hrest
      obtain rfl : pending = [] := hpending
      simp [ScanPoint.past, Text.byteSize]
    rw [hpast]
    exact .refl p
  inside q hq := .inl (hq.eq_of_nil hrest ▸ rfl)

variable {piece rest inner : List Char} {behind : Option (List Char)} {tokens : List Token}
  {source : String} {pattern : Pattern} {scope : Option String}

theorem length_rest_lt (hrest : p.rest = piece ++ rest) (hpiece : piece ≠ []) :
    rest.length < p.rest.length := by
  rw [hrest, List.length_append]
  exact Nat.lt_add_of_pos_left (List.length_pos_iff.2 hpiece)

/-- A rule without an action. -/
theorem reads_step (hpending : p.pending = []) (hrest : p.rest = piece ++ rest) (hpiece : piece ≠ [])
    (h : firstMatch (g.rulesAt (g.contextIn p.state.current)) p.rest =
      some (⟨source, pattern, [scope], none, none⟩, ⟨0, piece.length, []⟩))
    (hmore : g.Reads (p.pass piece rest scope) inner behind tokens) :
    g.Reads p (piece ++ inner) behind (p.token piece scope :: tokens) := by
  have hstep := step?_single hrest hpiece h rfl rfl rfl
  rw [flushed_of_nil hpending] at hstep
  have hpast : (p.pass piece rest scope).past inner behind tokens =
      p.past (piece ++ inner) behind (p.token piece scope :: tokens) := by
    simp only [ScanPoint.past, ScanPoint.pass, append_tokens, Nat.add_assoc, ← Text.byteSize_append]
    rfl
  refine ⟨.cons hpiece hmore.tiles, .step hstep (hpast ▸ hmore.leads), fun q hq => ?_⟩
  rcases hq.cases_step hstep with rfl | hq
  · exact .inl rfl
  · exact hpast ▸ hmore.inside q hq

/-- A rule that leaves the context. -/
theorem reads_last (hpending : p.pending = []) (hrest : p.rest = piece ++ rest) (hpiece : piece ≠ [])
    (h : firstMatch (g.rulesAt (g.contextIn p.state.current)) p.rest =
      some (⟨source, pattern, [scope], some (.pop none), none⟩, ⟨0, piece.length, []⟩)) :
    g.Reads p piece (some rest) [p.token piece scope] := by
  have hstep := step?_single hrest hpiece h rfl rfl rfl
  rw [flushed_of_nil hpending] at hstep
  refine ⟨.single hpiece _ _, .step hstep (.refl _), fun q hq => ?_⟩
  exact (hq.cases_step hstep).imp (congrArg ScanPoint.state) id

/-! ### Comments and attributes -/

/-- A run of characters other than stars, or a star. -/
def bodyRule : Rule :=
  ⟨"[^*]+|\\*", tied (.alt (.repeated true 1 none (.one (.outside (.just '*')))) (.one (.just '*'))),
    [none], none, none⟩

/-- The rule for a star and another character that close a context. -/
def closingRule (source : String) (last : Char) : Rule :=
  ⟨source, tied (.seq (.one (.just '*')) (.one (.just last))), [none], some (.pop none), none⟩

/-- The rules of a context that a star and another character close. -/
def blockRules (source : String) (last : Char) : List Rule := [closingRule source last, bodyRule]

theorem has_outside_star {c : Char} : (CharSet.outside (.just '*')).has c = true ↔ c ≠ '*' := by
  rw [CharSet.has, Bool.not_eq_true', ← Bool.not_eq_true, CharSet.has_just]

theorem firstMatch_closing (source : String) (last : Char) (cs : List Char) :
    firstMatch (blockRules source last) ('*' :: last :: cs) =
      some (closingRule source last, ⟨0, 2, []⟩) := by
  refine firstMatch_of_match ((match?_pair _ _ _ _).trans (if_pos ?_))
  exact ⟨CharSet.has_just.2 rfl, CharSet.has_just.2 rfl⟩

theorem firstMatch_star {last : Char} {cs : List Char} (h : cs.head? ≠ some last) (source : String) :
    firstMatch (blockRules source last) ('*' :: cs) = some (bodyRule, ⟨0, 1, []⟩) := by
  have hclosing : ¬((CharSet.just '*').has '*' ∧ cs.head?.any (CharSet.just last).has) :=
    fun hboth => h (CharSet.any_has_just.1 hboth.2)
  refine (firstMatch_of_none ((match?_pair _ _ _ _).trans (if_neg hclosing))).trans ?_
  refine firstMatch_of_match ((match?_run_or _ _ _ _).trans ?_)
  rw [if_neg (not_not.2 rfl ∘ has_outside_star.1), if_pos (CharSet.has_just.2 rfl)]

theorem firstMatch_body {c : Char} (hc : c ≠ '*') (source : String) (last : Char) (cs : List Char) :
    firstMatch (blockRules source last) (c :: cs) = some (bodyRule,
      ⟨0, ((c :: cs).takeWhile (CharSet.outside (.just '*')).has).length, []⟩) := by
  refine (firstMatch_of_none ((match?_pair _ _ _ _).trans (if_neg ?_))).trans ?_
  · exact fun h => hc (CharSet.has_just.1 h.1)
  · exact firstMatch_of_match ((match?_run_or _ _ _ _).trans (if_pos (has_outside_star.2 hc)))

/-- What is read inside a comment or an attribute, and with which scopes. -/
def ReadsBlock (g : Grammar) (last : Char) (p : ScanPoint) : Prop :=
  ∃ inner behind tokens, Block last p.rest inner behind ∧ g.Reads p inner behind tokens ∧
    ∀ t ∈ tokens, t.scopes = p.state.current.scopes.reverse

theorem ReadsBlock.pass {last : Char}
    (hrules : g.rulesAt (g.contextIn p.state.current) = blockRules source last)
    (hpending : p.pending = []) (hrest : p.rest = piece ++ rest) (hpiece : piece ≠ [])
    (hfirst : firstMatch (blockRules source last) p.rest = some (bodyRule, ⟨0, piece.length, []⟩))
    (hblock : ∀ inner behind, Block last rest inner behind →
      Block last (piece ++ rest) (piece ++ inner) behind)
    (h : g.ReadsBlock last (p.pass piece rest none)) : g.ReadsBlock last p := by
  obtain ⟨inner, behind, tokens, hinner, hreads, hscopes⟩ := h
  rw [← hrules] at hfirst
  refine ⟨piece ++ inner, behind, _, ?_, reads_step hpending hrest hpiece hfirst hreads,
    List.forall_mem_cons.2 ⟨List.append_nil _, hscopes⟩⟩
  rw [hrest]
  exact hblock inner behind hinner

/-- Inside a comment or an attribute, all is read up to the mark that closes it. -/
theorem readsBlock {last : Char}
    (hrules : g.rulesAt (g.contextIn p.state.current) = blockRules source last)
    (hpending : p.pending = []) : g.ReadsBlock last p := by
  -- A run of characters is read at once, so the induction is on the length.
  induction hn : p.rest.length using Nat.strong_induction_on generalizing p with
  | _ n ih =>
    subst hn
    rcases hrest : p.rest with _ | ⟨c, cs⟩
    · refine ⟨[], none, [], ?_, reads_nil hrest hpending, by simp⟩
      rw [hrest]
      exact .unclosed (by simp)
    by_cases hstar : c = '*'
    · subst hstar
      by_cases hclosed : cs.head? = some last
      · obtain ⟨behind, rfl⟩ := List.head?_eq_some_iff.1 hclosed
        have hfirst := firstMatch_closing source last behind
        rw [← hrest, ← hrules] at hfirst
        refine ⟨['*', last], some behind, _, ?_, reads_last hpending hrest (by simp) hfirst, by simp⟩
        rw [hrest]
        exact .closed [] behind (by simp [List.infix_cons_iff])
      · have hstep : p.rest = ['*'] ++ cs := hrest
        refine .pass hrules hpending hstep (by simp) (hrest ▸ firstMatch_star hclosed source)
          (fun inner behind hinner => .cons (fun _ => hclosed) hinner) ?_
        exact ih _ (length_rest_lt hstep (by simp)) hrules rfl rfl
    · have hfirst := firstMatch_body hstar source last cs
      rw [← hrest] at hfirst
      have hstep := (p.rest.takeWhile_append_dropWhile (p := (CharSet.outside (.just '*')).has)).symm
      have hne : p.rest.takeWhile (CharSet.outside (.just '*')).has ≠ [] := by
        rw [hrest, List.takeWhile_cons_of_pos (has_outside_star.2 hstar)]
        exact List.cons_ne_nil _ _
      have hbody : ∀ d ∈ p.rest.takeWhile (CharSet.outside (.just '*')).has, d ≠ '*' :=
        fun d hd => has_outside_star.1 (List.mem_takeWhile_imp hd)
      exact .pass hrules hpending hstep hne hfirst (fun inner behind hinner => .append hbody hinner)
        (ih _ (length_rest_lt hstep hne) hrules rfl rfl)

/-! ### Literals -/

def quoteRule : Rule := ⟨"\"", tied (.one (.just '"')), [none], some (.pop none), none⟩

def escapeRule : Rule :=
  ⟨"\\\\(?s:.)", tied (.seq (.one (.just '\\')) (.one .all)), [some Role.stringEscape.scope], none, none⟩

/-- The characters that a backslash is not needed for. -/
def plainSet : CharSet := .outside (.either (.just '"') (.just '\\'))

/-- A run of characters other than quotes and backslashes, or a backslash at the end of the text. -/
def plainRule : Rule :=
  ⟨"[^\"\\\\]+|\\\\", tied (.alt (.repeated true 1 none (.one plainSet)) (.one (.just '\\'))), [none], none,
    none⟩

/-- The rules of a string literal. -/
def literalRules : List Rule := [quoteRule, escapeRule, plainRule]

theorem has_plainSet {c : Char} : plainSet.has c = true ↔ c ≠ '"' ∧ c ≠ '\\' := by
  rw [plainSet, CharSet.has, CharSet.has, Bool.not_eq_true', Bool.or_eq_false_iff, ← Bool.not_eq_true,
    ← Bool.not_eq_true, CharSet.has_just, CharSet.has_just]

theorem firstMatch_quote (cs : List Char) :
    firstMatch literalRules ('"' :: cs) = some (quoteRule, ⟨0, 1, []⟩) :=
  firstMatch_of_match ((match?_one _ _ _).trans (if_pos (CharSet.has_just.2 rfl)))

theorem firstMatch_of_ne_quote {c : Char} (hc : c ≠ '"') (cs : List Char) :
    firstMatch literalRules (c :: cs) = firstMatch [escapeRule, plainRule] (c :: cs) :=
  firstMatch_of_none ((match?_one _ _ _).trans (if_neg (hc ∘ CharSet.has_just.1)))

theorem firstMatch_escape (c : Char) (cs : List Char) :
    firstMatch literalRules ('\\' :: c :: cs) = some (escapeRule, ⟨0, 2, []⟩) := by
  refine (firstMatch_of_ne_quote (by decide) _).trans (firstMatch_of_match ?_)
  exact (match?_pair _ _ _ _).trans (if_pos ⟨CharSet.has_just.2 rfl, rfl⟩)

theorem firstMatch_backslash :
    firstMatch literalRules ['\\'] = some (plainRule, ⟨0, 1, []⟩) := by
  refine (firstMatch_of_ne_quote (by decide) _).trans ((firstMatch_of_none ?_).trans ?_)
  · exact (match?_pair _ _ _ _).trans (if_neg (by simp))
  · refine firstMatch_of_match ((match?_run_or _ _ _ _).trans ?_)
    rw [if_neg fun h => (has_plainSet.1 h).2 rfl, if_pos (CharSet.has_just.2 rfl)]

theorem firstMatch_plain {c : Char} (hquote : c ≠ '"') (hescape : c ≠ '\\') (cs : List Char) :
    firstMatch literalRules (c :: cs) =
      some (plainRule, ⟨0, ((c :: cs).takeWhile plainSet.has).length, []⟩) := by
  refine (firstMatch_of_ne_quote hquote _).trans ((firstMatch_of_none ?_).trans ?_)
  · exact (match?_pair _ _ _ _).trans (if_neg fun h => hescape (CharSet.has_just.1 h.1))
  · exact firstMatch_of_match
      ((match?_run_or _ _ _ _).trans (if_pos (has_plainSet.2 ⟨hquote, hescape⟩)))

/-- Whether a token from inside a literal with certain scopes is not the quote that closes it. -/
def GoesOn (scopes : List String) (t : Token) : Prop :=
  t.scopes = scopes ∧ t.text ≠ "\"" ∨ t.scopes = scopes ++ [Role.stringEscape.scope]

/-- What is read inside a literal: tokens that go on, and the quote that closes it, if there is one. -/
def ReadsLiteral (g : Grammar) (p : ScanPoint) : Prop :=
  ∃ (inner : List Char) (behind : Option (List Char)) (tokens : List Token) (last : Option Token),
    Literal p.rest inner behind ∧ g.Reads p inner behind (tokens ++ last.toList) ∧
    (∀ t ∈ tokens, GoesOn p.state.current.scopes.reverse t) ∧ last.isSome = behind.isSome ∧
    ∀ t ∈ last, t.text = "\"" ∧ t.scopes = p.state.current.scopes.reverse

theorem ReadsLiteral.pass (hrules : g.rulesAt (g.contextIn p.state.current) = literalRules)
    (hpending : p.pending = []) (hrest : p.rest = piece ++ rest) (hpiece : piece ≠ [])
    (hfirst : firstMatch literalRules p.rest =
      some (⟨source, pattern, [scope], none, none⟩, ⟨0, piece.length, []⟩))
    (hgoes : GoesOn p.state.current.scopes.reverse (p.token piece scope))
    (hliteral : ∀ inner behind, Literal rest inner behind →
      Literal (piece ++ rest) (piece ++ inner) behind)
    (h : g.ReadsLiteral (p.pass piece rest scope)) : g.ReadsLiteral p := by
  obtain ⟨inner, behind, tokens, last, hinner, hreads, htokens, hlast⟩ := h
  rw [← hrules] at hfirst
  refine ⟨piece ++ inner, behind, _, last, ?_, reads_step hpending hrest hpiece hfirst hreads,
    List.forall_mem_cons.2 ⟨hgoes, htokens⟩, hlast⟩
  rw [hrest]
  exact hliteral inner behind hinner

/-- Inside a literal, all is read up to the quote that closes it. -/
theorem readsLiteral (hrules : g.rulesAt (g.contextIn p.state.current) = literalRules)
    (hpending : p.pending = []) : g.ReadsLiteral p := by
  -- As in a comment, a run is read at once.
  induction hn : p.rest.length using Nat.strong_induction_on generalizing p with
  | _ n ih =>
    subst hn
    rcases hrest : p.rest with _ | ⟨c, cs⟩
    · refine ⟨[], none, [], none, ?_, reads_nil hrest hpending, by simp, rfl, by simp⟩
      rw [hrest]
      exact .nil
    by_cases hquote : c = '"'
    · subst hquote
      have hfirst := firstMatch_quote cs
      rw [← hrest, ← hrules] at hfirst
      have hreads := reads_last hpending (show p.rest = ['"'] ++ cs from hrest) (by simp) hfirst
      refine ⟨['"'], some cs, [], some _, ?_, hreads, by simp, rfl, by simp⟩
      rw [hrest]
      exact .closed cs
    by_cases hescape : c = '\\'
    · subst hescape
      cases cs with
      | nil =>
        have hstep : p.rest = ['\\'] ++ [] := hrest
        refine .pass hrules hpending hstep (by simp) (hrest ▸ firstMatch_backslash)
          (.inl ⟨by simp, by simp⟩) (fun inner behind hinner => ?_)
          (ih _ (length_rest_lt hstep (by simp)) hrules rfl rfl)
        cases hinner
        exact .backslash
      | cons d cs =>
        have hstep : p.rest = ['\\', d] ++ cs := hrest
        exact .pass hrules hpending hstep (by simp) (hrest ▸ firstMatch_escape d cs) (.inr rfl)
          (fun inner behind hinner => .escaped d hinner) (ih _ (length_rest_lt hstep (by simp)) hrules rfl rfl)
    · have hfirst := firstMatch_plain hquote hescape cs
      rw [← hrest] at hfirst
      have hstep := (p.rest.takeWhile_append_dropWhile (p := plainSet.has)).symm
      have hne : p.rest.takeWhile plainSet.has ≠ [] := by
        rw [hrest, List.takeWhile_cons_of_pos (has_plainSet.2 ⟨hquote, hescape⟩)]
        exact List.cons_ne_nil _ _
      have hplain : ∀ d ∈ p.rest.takeWhile plainSet.has, d ≠ '"' ∧ d ≠ '\\' :=
        fun d hd => has_plainSet.1 (List.mem_takeWhile_imp hd)
      refine .pass hrules hpending hstep hne hfirst (.inl ⟨by simp, fun htext => ?_⟩)
        (fun inner behind hinner => .append hplain hinner) (ih _ (length_rest_lt hstep hne) hrules rfl rfl)
      have hall : p.rest.takeWhile plainSet.has = ['"'] := by
        simpa using congrArg String.toList htext
      exact (hplain '"' (by simp [hall])).1 rfl

/-! ### From the mark that opens a context -/

/-- The point behind the mark that opens a context. -/
def ScanPoint.enter (g : Grammar) (p : ScanPoint) (context : Nat) (mark rest : List Char)
    (scope : Option String) : ScanPoint where
  state := { p.state with current := g.enter context p.state.current }
  offset := p.offset + Text.byteSize mark
  pending := []
  out := g.flushed p ++ [p.token mark scope]
  rest := rest

/-- The point behind some characters that become tokens and leave the state as it is. -/
def ScanPoint.skip (g : Grammar) (p : ScanPoint) (chars rest : List Char) (tokens : List Token) :
    ScanPoint where
  state := p.state
  offset := p.offset + Text.byteSize chars
  pending := []
  out := g.flushed p ++ tokens
  rest := rest

/-- The point behind all that is read in a context, with the mark that opens it; the state is what it was,
unless nothing closes the context. -/
def ScanPoint.through (g : Grammar) (p : ScanPoint) (context : Nat) (chars : List Char)
    (behind : Option (List Char)) (tokens : List Token) : ScanPoint where
  state := if behind.isSome then p.state
    else { p.state with current := g.enter context p.state.current }
  offset := p.offset + Text.byteSize chars
  pending := []
  out := g.flushed p ++ tokens
  rest := behind.getD []

/-- A way through a context, from the mark that opens it on: at each point before the end of it, the scan
stands in front of the mark or is in the context. -/
structure LeadsThrough (g : Grammar) (p : ScanPoint) (context : Nat) (chars : List Char)
    (behind : Option (List Char)) (tokens : List Token) : Prop where
  tiles : Tiles p.offset chars tokens
  leads : g.Leads p (p.through g context chars behind tokens)
  inside : ∀ q, g.Leads p q → q = p ∨
    q.state = { p.state with current := g.enter context p.state.current } ∨
    g.Leads (p.through g context chars behind tokens) q

section

variable {context : Nat} {mark : List Char} {name : String} {last : Char} {more : List Char}

theorem leadsThrough (hframes : p.state.current.frames ≠ []) (hrest : p.rest = mark ++ rest)
    (hmark : mark ≠ []) (h : firstMatch (g.rulesAt (g.contextIn p.state.current)) p.rest =
      some (⟨source, pattern, [scope], some (.push context), none⟩, ⟨0, mark.length, []⟩))
    (hinner : g.Reads (p.enter g context mark rest scope) inner behind tokens) :
    g.LeadsThrough p context (mark ++ inner) behind (p.token mark scope :: tokens) := by
  have hstep : g.step? p = some (p.enter g context mark rest scope) :=
    step?_single hrest hmark h rfl rfl rfl
  have hpast : (p.enter g context mark rest scope).past inner behind tokens =
      p.through g context (mark ++ inner) behind (p.token mark scope :: tokens) := by
    simp only [ScanPoint.past, ScanPoint.enter, leave_enter hframes, append_tokens, Nat.add_assoc,
      ← Text.byteSize_append]
    rfl
  refine ⟨.cons hmark hinner.tiles, .step hstep (hpast ▸ hinner.leads), fun q hq => ?_⟩
  rcases hq.cases_step hstep with rfl | hq
  · exact .inl rfl
  · exact .inr (hpast ▸ hinner.inside q hq)

/-- The way through a comment or an attribute. All of its tokens have the same scopes. -/
theorem leadsThrough_block (hframes : p.state.current.frames ≠ []) (hrest : p.rest = mark ++ more)
    (hmark : mark ≠ []) (h : firstMatch (g.rulesAt (g.contextIn p.state.current)) p.rest =
      some (⟨source, pattern, [some name], some (.push context), none⟩, ⟨0, mark.length, []⟩))
    {source' : String} (hrules : g.rulesAt context = blockRules source' last)
    (hscope : g.contexts[context]?.bind (·.scope) = some name) :
    ∃ inner behind tokens, Block last more inner behind ∧
      g.LeadsThrough p context (mark ++ inner) behind tokens ∧
      ∀ t ∈ tokens, t.scopes = p.state.current.scopes.reverse ++ [name] := by
  obtain ⟨inner, behind, tokens, hblock, hreads, hscopes⟩ :=
    readsBlock (p := p.enter g context mark more (some name)) hrules rfl
  refine ⟨inner, behind, _, hblock, leadsThrough hframes hrest hmark h hreads,
    List.forall_mem_cons.2 ⟨rfl, fun t ht => ?_⟩⟩
  rw [hscopes t ht, ScanPoint.enter, enter, hscope]
  exact List.reverse_cons

end

end Grammar

end HdlIndex
