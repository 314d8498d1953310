import HdlIndex.Proofs.Grammar.Coverage
import HdlIndex.Proofs.Grammar.Written
import HdlIndex.Proofs.Pattern.Whole

/-! The course of a scan, with any grammar and from any scopes. Main statement: a scan is a row of
matches, each by the first rule of the current context that matches, with at most one run of
characters between two of them that no rule matches; such a run is one token. Either the row ends
with a match that breaks the contract, and there are no tokens, or it ends with the text, and the
tokens are the text cut into pieces, but for the characters that a match skips. The sources that a
grammar is made of skip none if each of them is a pattern by itself. -/

namespace HdlIndex.Grammar

/-! ### The course of a scan -/

/-- The token of a run of characters that no rule matches. -/
def unmatchedRun (g : Grammar) (s : Stacks) (offset : Nat) (run : List Char) : Token :=
  ⟨.ofList run, offset, s.scopes.reverse ++ [g.invalidScope]⟩

/-- The innermost scope of such a token says so. -/
@[simp] theorem scope_unmatchedRun (g : Grammar) (s : Stacks) (offset : Nat) (run : List Char) :
    (g.unmatchedRun s offset run).scope = g.invalidScope := by
  simp [unmatchedRun, Token.scope]

/-- The way of a scan through the text from an offset on, with what it comes to. -/
inductive Course (g : Grammar) :
    ScanState → Nat → List Char → Except Violation (List Token) → Prop
  | nil (st : ScanState) (offset : Nat) : Course g st offset [] (.ok [])
  /-- Characters that no rule matches, up to the next match or the end of the text, are one
  token. -/
  | unmatched {st : ScanState} {offset : Nat} {run rest : List Char}
      {result : Except Violation (List Token)} (hne : run ≠ [])
      (hrun : ∀ behind, behind ≠ [] → behind <:+ run →
        firstMatch (g.rulesIn st.current) (behind ++ rest) = none)
      (hrest : rest ≠ [] → (firstMatch (g.rulesIn st.current) rest).isSome)
      (h : Course g st (offset + Text.byteSize run) rest result) :
      Course g st offset (run ++ rest)
        (result.map (g.unmatchedRun st.current offset run :: ·))
  /-- The first rule that matches reads on and changes the state. -/
  | matched {st : ScanState} {offset : Nat} {text : List Char} {rule : Rule} {m : Match}
      {tokens : List Token} {result : Except Violation (List Token)} (hne : text ≠ [])
      (hmatch : firstMatch (g.rulesIn st.current) text = some (rule, m)) (hstop : 0 < m.stop)
      (htokens : matchTokens offset text st.current.scopes.reverse rule m = some tokens)
      (h : Course g (g.applyRule st rule) (offset + Text.byteSize (text.take m.stop))
        (text.drop m.stop) result) :
      Course g st offset text (result.map (tokens ++ ·))
  /-- A match that breaks the contract is the end. -/
  | emptyMatch {st : ScanState} {offset : Nat} {text : List Char} {rule : Rule} {m : Match}
      (hne : text ≠ [])
      (hmatch : firstMatch (g.rulesIn st.current) text = some (rule, m)) (hstop : m.stop = 0) :
      Course g st offset text (.error ⟨.emptyMatch,
        ((g.currentContext st.current).map (·.name)).getD "", rule.source, offset⟩)
  | uncoveredMatch {st : ScanState} {offset : Nat} {text : List Char} {rule : Rule} {m : Match}
      (hne : text ≠ [])
      (hmatch : firstMatch (g.rulesIn st.current) text = some (rule, m)) (hstop : 0 < m.stop)
      (htokens : matchTokens offset text st.current.scopes.reverse rule m = none) :
      Course g st offset text (.error ⟨.uncoveredMatch,
        ((g.currentContext st.current).map (·.name)).getD "", rule.source, offset⟩)

section

variable {g : Grammar} {st : ScanState} {offset : Nat} {pending : List Char} {out : Array Token}
  {c : Char} {cs : List Char} {rule : Rule} {m : Match}

theorem scanFrom_of_emptyMatch
    (h : firstMatch (g.rulesIn st.current) (c :: cs) = some (rule, m)) (hstop : m.stop = 0) :
    g.scanFrom st offset pending out (c :: cs) = .error ⟨.emptyMatch,
      ((g.currentContext st.current).map (·.name)).getD "", rule.source, offset⟩ := by
  rw [rulesIn] at h
  rw [scanFrom]
  dsimp only
  rw [h]
  dsimp only
  rw [dif_pos hstop]

theorem scanFrom_of_uncoveredMatch
    (h : firstMatch (g.rulesIn st.current) (c :: cs) = some (rule, m)) (hstop : 0 < m.stop)
    (htokens : matchTokens offset (c :: cs) st.current.scopes.reverse rule m = none) :
    g.scanFrom st offset pending out (c :: cs) = .error ⟨.uncoveredMatch,
      ((g.currentContext st.current).map (·.name)).getD "", rule.source, offset⟩ := by
  rw [rulesIn] at h
  rw [scanFrom]
  dsimp only
  rw [h]
  dsimp only
  rw [dif_neg (Nat.ne_of_gt hstop), htokens]

end

section

variable {g : Grammar} {st : ScanState} {base : Nat} {pending rest : List Char}

/-- The characters in front of a match or of the end of the text that no rule matches are put in
front of the rest of the course. -/
theorem Course.exists_flush {result : Except Violation (List Token)}
    (h : Course g st (base + Text.byteSize pending) rest result)
    (hpending : ∀ behind, behind ≠ [] → behind <:+ pending.reverse →
      firstMatch (g.rulesIn st.current) (behind ++ rest) = none)
    (hrest : rest ≠ [] → (firstMatch (g.rulesIn st.current) rest).isSome) :
    Course g st base (pending.reverse ++ rest) (result.map
      (g.unmatchedToken st.current.scopes.reverse (base + Text.byteSize pending) pending ++ ·)) := by
  rcases pending with _ | ⟨c, pending⟩
  · rw [List.reverse_nil, List.nil_append]
    have hsame : result.map (g.unmatchedToken st.current.scopes.reverse (base + 0) [] ++ ·) =
        result := by
      cases result <;> rfl
    exact hsame.symm ▸ h
  · have hne : (c :: pending).reverse ≠ [] := by simp
    rw [← Text.byteSize_reverse] at h
    have hcourse := Course.unmatched hne hpending hrest h
    have htoken : g.unmatchedToken st.current.scopes.reverse
        (base + Text.byteSize (c :: pending)) (c :: pending) =
          [g.unmatchedRun st.current base (c :: pending).reverse] := by
      rw [unmatchedToken, if_neg (by simp), Nat.add_sub_cancel_right]
      rfl
    rw [htoken]
    exact hcourse

/-- A character that no rule matches goes to those in front of it. -/
theorem unmatched_cons {rules : List Rule} {c : Char} {cs : List Char}
    (hpending : ∀ behind, behind ≠ [] → behind <:+ pending.reverse →
      firstMatch rules (behind ++ c :: cs) = none) (hfirst : firstMatch rules (c :: cs) = none) :
    ∀ behind, behind ≠ [] → behind <:+ (c :: pending).reverse →
      firstMatch rules (behind ++ cs) = none := by
  intro behind hne hsuffix
  rw [List.reverse_cons] at hsuffix
  rcases List.suffix_concat_iff.1 hsuffix with rfl | ⟨front, rfl, hfront⟩
  · exact absurd rfl hne
  · rw [List.append_assoc, List.singleton_append]
    rcases front with _ | ⟨d, front⟩
    · exact hfirst
    · exact hpending _ (List.cons_ne_nil d front) hfront

/-- A scan follows its course. The characters in front that are still unmatched belong to it. -/
theorem exists_course (st : ScanState) (base : Nat) (pending text : List Char)
    (hpending : ∀ behind, behind ≠ [] → behind <:+ pending.reverse →
      firstMatch (g.rulesIn st.current) (behind ++ text) = none) (out : Array Token) :
    ∃ result, Course g st base (pending.reverse ++ text) result ∧
      (g.scanFrom st (base + Text.byteSize pending) pending out text).map (·.toList) =
        result.map (out.toList ++ ·) := by
  induction hn : text.length using Nat.strong_induction_on
    generalizing st base pending out text with
  | _ n ih =>
    subst hn
    cases text with
    | nil =>
      refine ⟨_, (Course.nil st (base + Text.byteSize pending)).exists_flush hpending
        (absurd rfl), ?_⟩
      rw [scanFrom]
      simp [Except.map]
    | cons c cs =>
      rcases hfirst : firstMatch (g.rulesIn st.current) (c :: cs) with _ | ⟨rule, m⟩
      · obtain ⟨result, hcourse, hscan⟩ := ih cs.length (Nat.lt_succ_self _) st base (c :: pending)
          cs (unmatched_cons hpending hfirst) out rfl
        refine ⟨result, ?_, ?_⟩
        · simpa using hcourse
        · rw [scanFrom_of_unmatched hfirst, ← hscan, Text.byteSize, Nat.add_comm c.utf8Size,
            ← Nat.add_assoc]
      · have hmatch : c :: cs ≠ [] → (firstMatch (g.rulesIn st.current) (c :: cs)).isSome := by
          rw [hfirst]
          exact fun _ => rfl
        rcases Nat.eq_zero_or_pos m.stop with hstop | hstop
        · refine ⟨_, (Course.emptyMatch (List.cons_ne_nil c cs) hfirst hstop).exists_flush hpending
            hmatch, ?_⟩
          rw [scanFrom_of_emptyMatch hfirst hstop]
          rfl
        rcases htokens : matchTokens (base + Text.byteSize pending) (c :: cs)
          st.current.scopes.reverse rule m with _ | tokens
        · refine ⟨_, (Course.uncoveredMatch (List.cons_ne_nil c cs) hfirst hstop
            htokens).exists_flush hpending hmatch, ?_⟩
          rw [scanFrom_of_uncoveredMatch hfirst hstop htokens]
          rfl
        · have hshorter : ((c :: cs).drop m.stop).length < (c :: cs).length := by
            rw [List.length_drop, List.length_cons]
            omega
          obtain ⟨result, hcourse, hscan⟩ := ih _ hshorter (g.applyRule st rule)
            (base + Text.byteSize pending + Text.byteSize ((c :: cs).take m.stop)) []
            ((c :: cs).drop m.stop)
            (fun behind hne hsuffix => absurd (List.suffix_nil.1 hsuffix) hne)
            (out ++ g.unmatchedToken st.current.scopes.reverse (base + Text.byteSize pending)
              pending ++ tokens) rfl
          refine ⟨_, (Course.matched (List.cons_ne_nil c cs) hfirst hstop htokens
            hcourse).exists_flush hpending hmatch, ?_⟩
          rw [scanFrom_of_match hfirst hstop htokens]
          refine hscan.trans ?_
          cases result with
          | error violation => rfl
          | ok more => simp [Except.map]

end

/-- A scan follows its course. -/
theorem course_scan (g : Grammar) (text : String) (scopes : Option (List String)) :
    Course g (g.startState scopes) 0 text.toList (g.scan text scopes) := by
  obtain ⟨result, hcourse, hresult⟩ := exists_course (g := g) (g.startState scopes) 0 [] text.toList
    (fun behind hne hsuffix => absurd (List.suffix_nil.1 hsuffix) hne) #[]
  have hscan : g.scan text scopes = result := by
    rw [scan]
    refine Eq.trans hresult ?_
    cases result <;> rfl
  exact hscan ▸ hcourse

/-! ### Grammars that were built -/

/-- A rule whose source is a pattern by itself matches where the text starts. -/
theorem isAnchored_of_build {contexts : List ContextDef} {invalidScope : Option String}
    {g : Grammar} (h : build contexts invalidScope = .ok g) {rule : Rule} (hrule : rule ∈ g.rules)
    (hwhole : Pattern.isWhole rule.source.toList) : rule.pattern.IsAnchored := by
  obtain ⟨c, hc, hin⟩ := List.mem_flatMap.1 hrule
  obtain ⟨_, _, -, hpattern, -, -⟩ := ((comesFrom_of_build h).1 c hc).2 rule hin
  exact Pattern.isAnchored_of_isTied (Pattern.isTied_of_isWhole hwhole hpattern)

/-- Whatever the grammar that was built and the scopes around the text, a scan follows its course. It
either fails at a match that breaks the contract, without tokens, or it does not, and then the tokens
are the text cut into pieces exactly if the scan comes to no match that skips characters. If the
sources of all rules are patterns by themselves then there is no such match. -/
theorem course_and_tiling_of_build {contexts : List ContextDef} {invalidScope : Option String}
    {g : Grammar} (h : build contexts invalidScope = .ok g) (text : String)
    (scopes : Option (List String)) :
    Course g (g.startState scopes) 0 text.toList (g.scan text scopes) ∧
      ((∃ violation, g.scan text scopes = .error violation ∧ g.tokenize text scopes = []) ∨
        g.scan text scopes = .ok (g.tokenize text scopes) ∧
          (Tiling text (g.tokenize text scopes) ↔
            ∀ p, g.Leads (g.startPoint text scopes) p → ¬g.SkipsAt p) ∧
          ((∀ rule ∈ g.rules, Pattern.isWhole rule.source.toList) →
            Tiling text (g.tokenize text scopes))) := by
  refine ⟨course_scan g text scopes, ?_⟩
  rcases hscan : g.scan text scopes with violation | tokens
  · refine .inl ⟨violation, rfl, ?_⟩
    rw [tokenize, hscan]
  · have htokenize : g.tokenize text scopes = tokens := by
      rw [tokenize, hscan]
    rw [htokenize]
    have htiling := tiling_iff hscan
    refine .inr ⟨rfl, htiling, fun hwhole => htiling.2 fun p _ => ?_⟩
    exact not_skipsAt_of_isAnchored fun rule hrule => isAnchored_of_build h hrule (hwhole rule hrule)

/-- Words, and nothing else. -/
def wordContexts : List ContextDef := [⟨"Main", "", [.rule "[a-z]+" ["word"] none none]⟩]

def wordGrammar : Grammar where
  contexts := [⟨"Main", none, [⟨"[a-z]+", .seq (.edge .textStart)
    (.repeated true 1 none (.one (.range 'a' 'z'))), [some "word"], none, none⟩]⟩]
  main := 0
  invalidScope := "invalid.illegal"

theorem course_and_tiling_of_build_words :
    build wordContexts none = .ok wordGrammar ∧
      (∀ rule ∈ wordGrammar.rules, Pattern.isWhole rule.source.toList) ∧
      wordGrammar.scan "1ab2" none = .ok [⟨"1", 0, ["invalid.illegal"]⟩, ⟨"ab", 1, ["word"]⟩,
        ⟨"2", 3, ["invalid.illegal"]⟩] ∧
      Tiling "1ab2" (wordGrammar.tokenize "1ab2" none) := by
  have hbuild : build wordContexts none = .ok wordGrammar := by decide +kernel
  have hwhole : ∀ rule ∈ wordGrammar.rules, Pattern.isWhole rule.source.toList := by decide +kernel
  have hscan : wordGrammar.scan "1ab2" none = .ok [⟨"1", 0, ["invalid.illegal"]⟩,
      ⟨"ab", 1, ["word"]⟩, ⟨"2", 3, ["invalid.illegal"]⟩] := by decide +kernel
  refine ⟨hbuild, hwhole, hscan, ?_⟩
  rcases (course_and_tiling_of_build hbuild "1ab2" none).2 with ⟨violation, hfails, -⟩ | ⟨-, -, htiling⟩
  · cases hscan.symm.trans hfails
  · exact htiling hwhole

/-- A source that closes the group in which it is read and opens another one. -/
def splitContexts : List ContextDef := [⟨"Main", "", [.rule "a)|(?:b" ["b"] none none]⟩]

def splitGrammar : Grammar where
  contexts := [⟨"Main", none, [⟨"a)|(?:b",
    .alt (.seq (.edge .textStart) (.one (.just 'a'))) (.one (.just 'b')), [some "b"], none, none⟩]⟩]
  main := 0
  invalidScope := "invalid.illegal"

/-- Its second half matches anywhere, and what stands in front of the match is lost. -/
theorem not_tiling_split :
    build splitContexts none = .ok splitGrammar ∧
      splitGrammar.scan "xb" none = .ok [⟨"b", 0, ["b"]⟩] ∧
      ¬Tiling "xb" (splitGrammar.tokenize "xb" none) := by
  have hscan : splitGrammar.scan "xb" none = .ok [⟨"b", 0, ["b"]⟩] := by decide +kernel
  refine ⟨by decide +kernel, hscan, fun htiling => ?_⟩
  have htext := htiling.text
  rw [tokenize, hscan] at htext
  exact absurd htext (by decide)

end HdlIndex.Grammar
