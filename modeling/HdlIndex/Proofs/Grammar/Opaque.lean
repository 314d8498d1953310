import HdlIndex.Outline.Token
import HdlIndex.Proofs.Grammar.Course
import HdlIndex.Proofs.Grammar.Enclosed
import HdlIndex.Proofs.Grammar.Spelled

/-! Comments in the two grammars. Main statement: wherever a scan comes to the start of a block comment, all
up to and with the first mark that closes it becomes tokens of the comment and of nothing else, and the scan
goes on behind it in the state that it was in. -/

namespace HdlIndex.Grammar

open Pattern

variable {g : Grammar} {p : ScanPoint}

/-! ### What comes of a scan -/

theorem result_of_nil (hrest : p.rest = []) : g.result p = .ok (g.flushed p) := by
  rw [result, hrest, scanFrom, flushed]

/-- A scan only adds to the tokens that it has found. -/
theorem exists_later {out : Array Token} (hpending : p.pending = []) (h : g.result p = .ok out) :
    ∃ later, out.toList = p.out.toList ++ later := by
  obtain ⟨more, -, hmore⟩ := exists_course (g := g) p.state p.offset [] p.rest
    (fun behind hne hsuffix => absurd (List.suffix_nil.1 hsuffix) hne) p.out
  rw [Grammar.result, hpending] at h
  rw [show p.offset + Text.byteSize [] = p.offset from rfl, h] at hmore
  cases more with
  | error violation => cases hmore
  | ok later => exact ⟨later, Except.ok.inj hmore⟩

/-! ### Comments in a grammar -/

/-- The rule for the start of a block comment. -/
def commentRule (context : Nat) : Rule :=
  ⟨"/\\*", tied (.seq (.one (.just '/')) (.one (.just '*'))), [some LexKind.blockComment.scope],
    some (.push context), none⟩

/-- What it is for a grammar to have block comments: in the first context, the rule that enters a context
for them counts wherever one starts, and that context has their scope and is left where one ends. -/
structure HasComments (g : Grammar) (context : Nat) : Prop where
  first : ∀ more, firstMatch (g.rulesAt g.main) ('/' :: '*' :: more) =
    some (commentRule context, ⟨0, 2, []⟩)
  rules : g.rulesAt context = blockRules "\\*/" '/'
  scope : g.contexts[context]?.bind (·.scope) = some LexKind.blockComment.scope

theorem firstMatch_commentRule (context : Nat) (rules : List Rule) (more : List Char) :
    firstMatch (commentRule context :: rules) ('/' :: '*' :: more) =
      some (commentRule context, ⟨0, 2, []⟩) :=
  firstMatch_of_match ((match?_pair _ _ _ _).trans
    (if_pos ⟨CharSet.has_just.2 rfl, CharSet.has_just.2 rfl⟩))

/-- The rule for a comment up to the end of its line. -/
def lineRule : Rule :=
  ⟨"//[^\\r\\n]*", tied (.seq (.one (.just '/')) (.seq (.one (.just '/'))
    (.repeated true 0 none (.one (.outside (.either (.just '\r') (.just '\n'))))))),
    [some LexKind.lineComment.scope], none, none⟩

theorem firstMatch_lineRule_of_not {c : Char} {cs : List Char} (h : ¬(c = '/' ∧ cs.head? = some '/'))
    (rules : List Rule) : firstMatch (lineRule :: rules) (c :: cs) = firstMatch rules (c :: cs) :=
  firstMatch_of_none ((match?_pair_run _ _ _ _ _).trans (if_neg fun hboth =>
    h ⟨CharSet.has_just.1 hboth.1, CharSet.any_has_just.1 hboth.2⟩))

/-- The rules of a context from its first ones. -/
theorem exists_rules_of_take {rules front : List Rule} {n : Nat} (h : rules.take n = front) :
    ∃ later, rules = front ++ later :=
  ⟨rules.drop n, by rw [← h, List.take_append_drop]⟩

/-! ### In the grammar of directives -/

def continuationRule : Rule :=
  ⟨"\\\\\\r?\\n", tied (.seq (.one (.just '\\')) (.seq (.repeated true 0 (some 1) (.one (.just '\r')))
    (.one (.just '\n')))), [some LexKind.lineContinuation.scope], none, none⟩

theorem commentRules_directives :
    (directives.rulesAt directives.main).take 3 = [continuationRule, lineRule, commentRule 1] ∧
      directives.rulesAt 1 = blockRules "\\*/" '/' ∧
      directives.contexts[1]?.bind (·.scope) = some LexKind.blockComment.scope := by
  rw [directives_eq_inPieces]
  decide +kernel

theorem hasComments_directives : HasComments directives 1 where
  first more := by
    obtain ⟨later, hlater⟩ := exists_rules_of_take commentRules_directives.1
    rw [hlater, List.cons_append, firstMatch_of_none, List.cons_append,
      firstMatch_lineRule_of_not (by simp), List.cons_append, firstMatch_commentRule]
    exact match?_seq_of_not rfl (by decide) _
  rules := commentRules_directives.2.1
  scope := commentRules_directives.2.2

/-! ### In the grammar of declarations -/

def blankRule : Rule :=
  ⟨"\\s+", tied (.repeated true 1 none (.one .blank)), [some Role.blank.scope], none, none⟩

theorem commentRules_structural :
    (structural.rulesAt structural.main).take 3 = [blankRule, lineRule, commentRule 4] ∧
      structural.rulesAt 4 = blockRules "\\*/" '/' ∧
      structural.contexts[4]?.bind (·.scope) = some LexKind.blockComment.scope := by
  rw [structural_eq_inPieces]
  decide +kernel

theorem hasComments_structural : HasComments structural 4 where
  first more := by
    obtain ⟨later, hlater⟩ := exists_rules_of_take commentRules_structural.1
    rw [hlater, List.cons_append, firstMatch_of_none, List.cons_append,
      firstMatch_lineRule_of_not (by simp), List.cons_append, firstMatch_commentRule]
    exact (match?_run _ _ _).trans (if_neg (by decide))
  rules := commentRules_structural.2.1
  scope := commentRules_structural.2.2

/-! ### Opacity -/

/-- A scan in the first context that comes to the start of a block comment goes through it. -/
theorem HasComments.leadsThrough {context : Nat} (hg : HasComments g context)
    (hframes : p.state.current.frames ≠ []) (hmain : g.contextIn p.state.current = g.main)
    {more : List Char} (hrest : p.rest = '/' :: '*' :: more) :
    ∃ inner behind tokens, Block '/' more inner behind ∧
      g.LeadsThrough p context ('/' :: '*' :: inner) behind tokens ∧
      ∀ t ∈ tokens, t.scopes = p.state.current.scopes.reverse ++ [LexKind.blockComment.scope] := by
  have hfirst : firstMatch (g.rulesAt (g.contextIn p.state.current)) p.rest =
      some (commentRule context, ⟨0, 2, []⟩) := by
    rw [hmain, hrest, hg.first]
  exact leadsThrough_block hframes (show p.rest = ['/', '*'] ++ more from hrest) (by simp) hfirst
    hg.rules hg.scope

/-- Tokens of block comments are no more than that, to the processing of directives and to the reading of
an outline. -/
theorem classify_of_scopes {t : Token} {scopes : List String}
    (h : t.scopes = scopes ++ [LexKind.blockComment.scope]) :
    LexKind.classify t = .blockComment ∧ OutlineToken.isTrivia t = true := by
  have hscope : t.hasScope LexKind.blockComment.scope = true := by
    rw [Token.hasScope, h]
    simp
  refine ⟨if_pos hscope, ?_⟩
  rw [OutlineToken.isTrivia, show Role.blockComment.scope = LexKind.blockComment.scope from rfl, hscope]
  simp

/-- Block comments are opaque. Wherever a scan of any text, from any scopes, is in the first context and
comes to the start of a block comment, all characters up to and with the first mark behind it that closes
a comment, or to the end of the text if there is none, become tokens with the scope of block comments and
no other of their own, which count as nothing but a comment; the tokens of the text are those in front,
these, and those behind. The scan goes on behind the mark with the frames, scopes and snapshots that it
had in front of the comment, and on the way there it tries no rules but those for comments. -/
theorem comments_are_opaque (hg : g = directives ∨ g = structural) (text : String)
    (scopes : Option (List String)) (hp : g.Leads (g.startPoint text scopes) p)
    (hmain : g.contextIn p.state.current = g.main) {more : List Char}
    (hrest : p.rest = '/' :: '*' :: more) :
    ∃ inner behind tokens later, Block '/' more inner behind ∧
      Tiles p.offset ('/' :: '*' :: inner) tokens ∧
      (∀ t ∈ tokens, t.scopes = p.state.current.scopes.reverse ++ [LexKind.blockComment.scope] ∧
        LexKind.classify t = .blockComment ∧ OutlineToken.isTrivia t = true) ∧
      g.tokenize text scopes = (g.flushed p).toList ++ tokens ++ later ∧ (behind = none → later = []) ∧
      (∀ rest, behind = some rest → g.Leads p (p.skip g ('/' :: '*' :: inner) rest tokens)) ∧
      ∀ q, g.Leads p q → q = p ∨ g.rulesIn q.state.current = blockRules "\\*/" '/' ∨
        ∃ rest, behind = some rest ∧ g.Leads (p.skip g ('/' :: '*' :: inner) rest tokens) q := by
  obtain ⟨context, hcomments, hcontract⟩ :
      ∃ context, HasComments g context ∧ ∀ rule ∈ g.rules, rule.KeepsContract := by
    rcases hg with hg | hg
    · rw [hg]
      exact ⟨1, hasComments_directives, fun rule hrule =>
        (keepsContract_ofDefs areTidy_directives rule hrule).1⟩
    · rw [hg]
      exact ⟨4, hasComments_structural, fun rule hrule =>
        (keepsContract_ofDefs areTidy_structural rule hrule).1⟩
  have hframes := (hp.entered (entered_startState scopes)).current
  obtain ⟨inner, behind, tokens, hblock, hthrough, hscopes⟩ :=
    hcomments.leadsThrough hframes hmain hrest
  obtain ⟨out, hout⟩ : ∃ out, g.result (p.through g context ('/' :: '*' :: inner) behind tokens) = .ok out :=
    exists_scanFrom_eq_ok hcontract _ _ _ _ _
  obtain ⟨later, hlater⟩ := exists_later rfl hout
  refine ⟨inner, behind, tokens, later, hblock, hthrough.tiles,
    fun t ht => ⟨hscopes t ht, classify_of_scopes (hscopes t ht)⟩, ?_, ?_, ?_, fun q hq => ?_⟩
  · rw [tokenize_of_leads (hp.trans hthrough.leads) hout, hlater, ScanPoint.through,
      Array.toList_appendList]
  · rintro rfl
    rw [result_of_nil rfl, flushed_of_nil rfl] at hout
    rw [← Except.ok.inj hout] at hlater
    exact List.self_eq_append_right.1 hlater
  · rintro rest rfl
    exact hthrough.leads
  · have hrules {q : ScanPoint}
        (hq : q.state = { p.state with current := g.enter context p.state.current }) :
        g.rulesIn q.state.current = blockRules "\\*/" '/' := by
      rw [hq]
      exact hcomments.rules
    rcases hthrough.inside q hq with hq | hq | hq
    · exact .inl hq
    · exact .inr (.inl (hrules hq))
    · cases behind with
      | none => exact .inr (.inl (hrules (congrArg ScanPoint.state (hq.eq_of_nil rfl))))
      | some rest => exact .inr (.inr ⟨rest, rfl, hq⟩)

/-- Behind a bracket that closes nothing, so that no scope is left, not even that of the text. -/
def behindBracket : ScanPoint where
  state := ⟨⟨[⟨0, 0⟩], []⟩, []⟩
  offset := 1
  pending := []
  out := #[⟨")", 0, ["source.systemverilog", "punctuation.paren.close"]⟩]
  rest := ['/', '*', '"', '*', '/', ';']

theorem step?_behindBracket :
    structural.step? (structural.startPoint ")/*\"*/;" none) = some behindBracket ∧
      structural.contextIn behindBracket.state.current = structural.main := by
  rw [structural_eq_inPieces]
  decide +kernel

theorem comments_are_opaque_behindBracket :
    structural.Leads (structural.startPoint ")/*\"*/;" none) behindBracket ∧
    structural.contextIn behindBracket.state.current = structural.main ∧
    ∃ inner behind tokens later, Block '/' ['"', '*', '/', ';'] inner behind ∧
      Tiles 1 ('/' :: '*' :: inner) tokens ∧ (∀ t ∈ tokens, LexKind.classify t = .blockComment) ∧
      structural.tokenize ")/*\"*/;" =
        (structural.flushed behindBracket).toList ++ tokens ++ later := by
  obtain ⟨hstep, hmain⟩ := step?_behindBracket
  have hleads : structural.Leads (structural.startPoint ")/*\"*/;" none) behindBracket :=
    .step hstep (.refl _)
  obtain ⟨inner, behind, tokens, later, hblock, htiles, htokens, htext, -⟩ :=
    comments_are_opaque (.inr rfl) ")/*\"*/;" none hleads hmain rfl
  exact ⟨hleads, hmain, inner, behind, tokens, later, hblock, htiles, fun t ht => (htokens t ht).2.1, htext⟩

end HdlIndex.Grammar
