import HdlIndex.Proofs.Grammar.Marks
import HdlIndex.Proofs.Grammar.Opaque

/-! The first context of the grammar of declarations. Blanks, comments, attributes and string literals each
have a rule of their own in front of all others. Main statements: which of these rules counts is told by the
first characters of a text, and any other rule makes tokens that hold a quote only in an escaped name. -/

namespace HdlIndex

/-! ### The characters of a match -/

/-- Whether the characters between two places all satisfy a condition. -/
def MatchState.LeadsOver (P : Char → Prop) (s t : MatchState) : Prop :=
  ∃ piece, s.rest = piece ++ t.rest ∧ t.pos = s.pos + piece.length ∧ ∀ c ∈ piece, P c

namespace MatchState.LeadsOver

variable {P : Char → Prop} {s t u : MatchState}

theorem refl (s : MatchState) : s.LeadsOver P s := ⟨[], rfl, rfl, by simp⟩

theorem trans (h : s.LeadsOver P t) (h' : t.LeadsOver P u) : s.LeadsOver P u := by
  obtain ⟨a, ha, hpos, hall⟩ := h
  obtain ⟨b, hb, hpos', hall'⟩ := h'
  refine ⟨a ++ b, by rw [ha, hb, List.append_assoc], ?_, List.forall_mem_append.2 ⟨hall, hall'⟩⟩
  rw [hpos', hpos, List.length_append, Nat.add_assoc]

end MatchState.LeadsOver

namespace Pattern

/-- The sets that the characters of a match are in. -/
def sets : Pattern → List CharSet
  | .empty | .edge _ => []
  | .one set => [set]
  | .seq p q | .alt p q => p.sets ++ q.sets
  | .repeated _ _ _ p | .group _ p => p.sets

theorem Steps.leadsOver {R : MatchState → MatchState → Prop} {P : Char → Prop}
    (hR : ∀ s t, R s t → s.LeadsOver P t) {n : Nat} {s t : MatchState} (h : Steps R n s t) :
    s.LeadsOver P t := by
  induction h with
  | zero s => exact .refl s
  | succ hstep _ ih => exact (hR _ _ hstep).trans ih

/-- What holds of all characters in the sets of a pattern holds of those of a match. -/
theorem Matches.leadsOver {P : Char → Prop} {p : Pattern}
    (hP : ∀ set ∈ p.sets, ∀ c, set.has c = true → P c) {s t : MatchState} (h : p.Matches s t) :
    s.LeadsOver P t := by
  induction p generalizing s t with
  | empty =>
    obtain rfl : t = s := h
    exact .refl t
  | one set =>
    obtain ⟨c, hc, hhas, rfl⟩ := h
    obtain ⟨rest, hrest⟩ := List.head?_eq_some_iff.1 hc
    refine ⟨[c], by simp [MatchState.behind, hrest], rfl, ?_⟩
    simpa using hP set (List.mem_singleton_self _) c hhas
  | edge e =>
    obtain ⟨-, rfl⟩ := h
    exact .refl t
  | seq p q ihp ihq =>
    obtain ⟨hp, hq⟩ := List.forall_mem_append.1 hP
    obtain ⟨r, hpr, hrq⟩ := h
    exact (ihp hp hpr).trans (ihq hq hrq)
  | alt p q ihp ihq =>
    obtain ⟨hp, hq⟩ := List.forall_mem_append.1 hP
    rcases h with h | h
    · exact ihp hp h
    · exact ihq hq h
  | repeated greedy least most p ih =>
    obtain ⟨n, -, -, hsteps⟩ := h
    exact hsteps.leadsOver fun _ _ => ih hP
  | group index p ih =>
    obtain ⟨r, hr, rfl⟩ := h
    show s.LeadsOver P r
    exact ih hP hr

/-- Whether no match holds a certain character. -/
def avoids (c : Char) (p : Pattern) : Bool := p.sets.all fun set => !set.has c

theorem Matches.avoids {c : Char} {p : Pattern} (hp : p.avoids c = true) {s t : MatchState}
    (h : p.Matches s t) : s.LeadsOver (· ≠ c) t := by
  refine h.leadsOver fun set hset d hd => ?_
  rintro rfl
  have hnot := List.all_eq_true.1 hp set hset
  rw [hd] at hnot
  cases hnot

end Pattern

namespace Grammar

open Pattern

/-! ### Rules with a mark of their own -/

/-- An event control of all signals, which starts as an attribute does. -/
def starRule : Rule :=
  ⟨"\\(\\*\\s*\\)", tied (.seq (.one (.just '(')) (.seq (.one (.just '*'))
    (.seq (.repeated true 0 none (.one .blank)) (.one (.just ')'))))), [some Role.eventStar.scope], none,
    none⟩

def attributeRule : Rule :=
  ⟨"\\(\\*", tied (.seq (.one (.just '(')) (.one (.just '*'))), [some Role.attributeList.scope],
    some (.push 5), none⟩

def openQuoteRule : Rule :=
  ⟨"\"", tied (.one (.just '"')), [some Role.string.scope], some (.push 3), none⟩

/-- The scopes that make a token a part of a comment, an attribute or a literal, wherever they stand. -/
def enclosingScopes : List String :=
  [Role.blockComment.scope, Role.attributeList.scope, Role.string.scope, Role.stringEscape.scope]

/-- The scopes that make a token a part of something that is not read as it stands. -/
def hiddenScopes : List String := Role.blank.scope :: Role.lineComment.scope :: enclosingScopes

/-- The sets that the characters of an escaped name are in. -/
def escapedSets : List CharSet := [.just '\\', .outside .blank]

/-- What can be seen of a rule that makes tokens which are read as they stand: there is one token, its scope
does not hide it, no scope that the rule opens does either, the context stays, and a quote is read in an
escaped name only. -/
def Rule.isPlain (rule : Rule) : Bool :=
  rule.pattern.isTidy 1 && rule.scopes.length == 1 &&
    rule.scopes.all (fun scope => scope.any (!hiddenScopes.contains ·)) && rule.snapshot.isNone &&
    (match rule.action with
      | none | some (.popScopes _) => true
      | some (.pushScopes names) => names.all (!enclosingScopes.contains ·)
      | _ => false) &&
    (rule.pattern.avoids '"' ||
      rule.pattern.startsIn ['\\'] && rule.pattern.sets.all (escapedSets.contains ·))

def nameStart : CharSet := .either (.either (.range 'A' 'Z') (.range 'a' 'z')) (.just '_')

def nameRest : CharSet :=
  .either (.either (.either (.either (.range 'A' 'Z') (.range 'a' 'z')) (.range '0' '9')) (.just '_'))
    (.just '$')

def namePattern : Pattern := .seq (.one nameStart) (.repeated true 0 none (.one nameRest))

/-- The name of a package, blanks and what makes it one. -/
def packageRule : Rule :=
  ⟨"([A-Za-z_][A-Za-z0-9_$]*)(\\s*)(::)", tied (.seq (.seq (.group 1 namePattern)
    (.group 2 (.repeated true 0 none (.one .blank))))
    (.group 3 (.seq (.one (.just ':')) (.one (.just ':'))))),
    [none, some Role.packageName.scope, some Role.blank.scope, some Role.scopeResolution.scope], none,
    none⟩

/-- What a scan of a declaration file depends on before it comes to a token that is read as it stands: the
rules of the first context, and the contexts of attributes and of literals. -/
theorem openings_structural :
    ((structural.rulesAt structural.main).take 6 =
        [blankRule, lineRule, commentRule 4, starRule, attributeRule, openQuoteRule] ∧
      ((structural.rulesAt structural.main).drop 6).all fun rule =>
        rule.isPlain || rule == packageRule) ∧
    structural.main = 0 ∧
    structural.invalidScope ∉ hiddenScopes ∧
    structural.rulesAt 5 = blockRules "\\*\\)" ')' ∧
      structural.contexts[5]?.bind (·.scope) = some Role.attributeList.scope ∧
      structural.rulesAt 3 = literalRules ∧
      structural.contexts[3]?.bind (·.scope) = some Role.string.scope := by
  rw [structural_eq_inPieces]
  decide +kernel

theorem main_structural : structural.main = 0 := openings_structural.2.1

theorem invalidScope_structural : structural.invalidScope ∉ hiddenScopes := openings_structural.2.2.1

theorem exists_later_rules : ∃ later, structural.rulesAt structural.main =
    [blankRule, lineRule, commentRule 4, starRule, attributeRule, openQuoteRule] ++ later ∧
    ∀ rule ∈ later, rule.isPlain = true ∨ rule = packageRule := by
  obtain ⟨⟨hfront, hlater⟩, -⟩ := openings_structural
  refine ⟨_, by rw [← hfront, List.take_append_drop], fun rule hrule => ?_⟩
  simpa using List.all_eq_true.1 hlater rule hrule

/-! ### Which rule counts -/

section

variable {c : Char} {cs : List Char}

theorem match?_blankRule (c : Char) (cs : List Char) : blankRule.pattern.match? (c :: cs) =
    if Text.isBlank c then some ⟨0, ((c :: cs).takeWhile Text.isBlank).length, []⟩ else none :=
  match?_run .blank c cs

theorem first_blank (hc : Text.isBlank c = true) (cs : List Char) :
    firstMatch (structural.rulesAt structural.main) (c :: cs) =
      some (blankRule, ⟨0, ((c :: cs).takeWhile Text.isBlank).length, []⟩) := by
  obtain ⟨later, hlater, -⟩ := exists_later_rules
  rw [hlater]
  exact firstMatch_of_match ((match?_blankRule c cs).trans (if_pos hc))

/-- The characters of a line. -/
def lineSet : CharSet := .outside (.either (.just '\r') (.just '\n'))

theorem has_lineSet : lineSet.has c = true ↔ c ≠ '\r' ∧ c ≠ '\n' := by
  rw [lineSet, CharSet.has, CharSet.has, Bool.not_eq_true', Bool.or_eq_false_iff, ← Bool.not_eq_true,
    ← Bool.not_eq_true, CharSet.has_just, CharSet.has_just]

theorem first_line (cs : List Char) :
    firstMatch (structural.rulesAt structural.main) ('/' :: '/' :: cs) =
      some (lineRule, ⟨0, 2 + (cs.takeWhile lineSet.has).length, []⟩) := by
  obtain ⟨later, hlater, -⟩ := exists_later_rules
  rw [hlater]
  refine (firstMatch_of_none ((match?_blankRule _ _).trans (if_neg (by decide)))).trans ?_
  exact firstMatch_of_match ((match?_pair_run _ _ _ _ _).trans
    (if_pos ⟨CharSet.has_just.2 rfl, CharSet.has_just.2 rfl⟩))

/-- A text that starts with neither a blank nor a comment. -/
theorem exists_first_behind_comments (hblank : Text.isBlank c = false)
    (hcomment : c = '/' → cs.head? ≠ some '/' ∧ cs.head? ≠ some '*') :
    ∃ later, firstMatch (structural.rulesAt structural.main) (c :: cs) =
        firstMatch ([starRule, attributeRule, openQuoteRule] ++ later) (c :: cs) ∧
      ∀ rule ∈ later, rule.isPlain = true ∨ rule = packageRule := by
  obtain ⟨later, hlater, hplain⟩ := exists_later_rules
  refine ⟨later, ?_, hplain⟩
  rw [hlater]
  refine (firstMatch_of_none ((match?_blankRule _ _).trans (if_neg (by simp [hblank])))).trans ?_
  refine (firstMatch_lineRule_of_not (fun h => (hcomment h.1).1 h.2) _).trans (firstMatch_of_none ?_)
  exact (match?_pair _ _ _ _).trans (if_neg fun h =>
    (hcomment (CharSet.has_just.1 h.1)).2 (CharSet.any_has_just.1 h.2))

theorem match?_starRule (c : Char) (cs : List Char) : starRule.pattern.match? (c :: cs) =
    if (CharSet.just '(').has c ∧ cs.head?.any (CharSet.just '*').has ∧
        (cs.tail.dropWhile Text.isBlank).head?.any (CharSet.just ')').has then
      some ⟨0, 3 + (cs.tail.takeWhile Text.isBlank).length, []⟩
    else none := by
  refine match?_pair_run_one (fun d hd => ?_) c cs
  rw [CharSet.has_just]
  rintro rfl
  cases hd

/-- An attribute starts unless the parenthesis behind the star is closed at once. -/
theorem first_attribute {more : List Char} (h : (more.dropWhile Text.isBlank).head? ≠ some ')') :
    firstMatch (structural.rulesAt structural.main) ('(' :: '*' :: more) =
      some (attributeRule, ⟨0, 2, []⟩) := by
  have hcomment (hc : '(' = '/') : ('*' :: more).head? ≠ some '/' ∧ ('*' :: more).head? ≠ some '*' :=
    absurd hc (by decide)
  obtain ⟨later, hlater, -⟩ := exists_first_behind_comments (by decide) hcomment
  rw [hlater]
  refine (firstMatch_of_none ((match?_starRule _ _).trans (if_neg fun hstar => ?_))).trans ?_
  · exact h (CharSet.any_has_just.1 hstar.2.2)
  · exact firstMatch_of_match ((match?_pair _ _ _ _).trans
      (if_pos ⟨CharSet.has_just.2 rfl, CharSet.has_just.2 rfl⟩))

theorem match?_openQuoteRule (c : Char) (cs : List Char) :
    openQuoteRule.pattern.match? (c :: cs) =
      if (CharSet.just '"').has c then some ⟨0, 1, []⟩ else none := match?_one _ c cs

theorem first_quote (cs : List Char) :
    firstMatch (structural.rulesAt structural.main) ('"' :: cs) = some (openQuoteRule, ⟨0, 1, []⟩) := by
  have hcomment (hc : '"' = '/') : cs.head? ≠ some '/' ∧ cs.head? ≠ some '*' := absurd hc (by decide)
  obtain ⟨later, hlater, -⟩ := exists_first_behind_comments (by decide) hcomment
  have hparen : ¬(CharSet.just '(').has '"' := by decide
  rw [hlater]
  refine (firstMatch_of_none ((match?_starRule _ _).trans (if_neg fun h => hparen h.1))).trans ?_
  refine (firstMatch_of_none ((match?_pair _ _ _ _).trans (if_neg fun h => hparen h.1))).trans ?_
  exact firstMatch_of_match ((match?_openQuoteRule _ _).trans (if_pos (CharSet.has_just.2 rfl)))

/-- What it is for a text not to start with a blank, a comment, an attribute or a literal. -/
structure PlainStart (text : List Char) : Prop where
  noBlank : ∀ c ∈ text.head?, Text.isBlank c = false
  noQuote : text.head? ≠ some '"'
  noComment : ∀ more, text ≠ '/' :: '/' :: more ∧ text ≠ '/' :: '*' :: more
  noAttribute : ∀ more, text = '(' :: '*' :: more → (more.dropWhile Text.isBlank).head? = some ')'

theorem isPlain_starRule : starRule.isPlain = true := by decide

/-- At such a start, a rule counts that has no mark of its own. -/
theorem plain_of_first {rule : Rule} {m : Match} (h : PlainStart (c :: cs))
    (hfirst : firstMatch (structural.rulesAt structural.main) (c :: cs) = some (rule, m)) :
    (rule.isPlain = true ∨ rule = packageRule) ∧ rule.pattern.match? (c :: cs) = some m := by
  have hcomment (hc : c = '/') : cs.head? ≠ some '/' ∧ cs.head? ≠ some '*' := by
    subst hc
    constructor
    · intro hnext
      obtain ⟨more, rfl⟩ := List.head?_eq_some_iff.1 hnext
      exact (h.noComment more).1 rfl
    · intro hnext
      obtain ⟨more, rfl⟩ := List.head?_eq_some_iff.1 hnext
      exact (h.noComment more).2 rfl
  obtain ⟨later, hlater, hplain⟩ := exists_first_behind_comments (h.noBlank c rfl) hcomment
  rw [hlater] at hfirst
  rcases hstar : starRule.pattern.match? (c :: cs) with _ | m'
  · have hattribute : attributeRule.pattern.match? (c :: cs) = none := by
      refine (match?_pair _ _ _ _).trans (if_neg fun hboth => ?_)
      obtain rfl := CharSet.has_just.1 hboth.1
      obtain ⟨more, rfl⟩ := List.head?_eq_some_iff.1 (CharSet.any_has_just.1 hboth.2)
      rw [match?_starRule, if_pos] at hstar
      · cases hstar
      · exact ⟨hboth.1, hboth.2, CharSet.any_has_just.2 (h.noAttribute more rfl)⟩
    have hquote : openQuoteRule.pattern.match? (c :: cs) = none :=
      (match?_openQuoteRule _ _).trans
        (if_neg fun hc => h.noQuote (congrArg some (CharSet.has_just.1 hc)))
    rw [List.cons_append, firstMatch_of_none hstar, List.cons_append, firstMatch_of_none hattribute,
      List.cons_append, firstMatch_of_none hquote] at hfirst
    exact (firstMatch_eq_some hfirst).imp_left (hplain rule)
  · rw [List.cons_append, firstMatch_of_match hstar] at hfirst
    obtain ⟨rfl, rfl⟩ := Prod.mk.inj (Option.some.inj hfirst)
    exact ⟨.inl isPlain_starRule, hstar⟩

/-- A text starts in one of six ways. -/
theorem opening_cases (c : Char) (cs : List Char) : Text.isBlank c = true ∨ c = '"' ∨
    (∃ more, c :: cs = '/' :: '/' :: more) ∨ (∃ more, c :: cs = '/' :: '*' :: more) ∨
    (∃ more, c :: cs = '(' :: '*' :: more ∧ (more.dropWhile Text.isBlank).head? ≠ some ')') ∨
    PlainStart (c :: cs) := by
  by_contra hnone
  simp only [not_or, not_exists, not_and, not_not] at hnone
  obtain ⟨hblank, hquote, hline, hcomment, hattribute, hplain⟩ := hnone
  refine hplain ⟨?_, by simpa using hquote, fun more => ⟨hline more, hcomment more⟩, hattribute⟩
  simpa using hblank

/-- Where no rule matches, nothing starts that has a mark of its own. -/
theorem plainStart_of_unmatched
    (h : firstMatch (structural.rulesAt structural.main) (c :: cs) = none) : PlainStart (c :: cs) := by
  rcases opening_cases c cs with hc | rfl | ⟨more, hmore⟩ | ⟨more, hmore⟩ | ⟨more, hmore, hopen⟩ | hplain
  · rw [first_blank hc] at h
    cases h
  · rw [first_quote] at h
    cases h
  · rw [hmore, first_line] at h
    cases h
  · rw [hmore, hasComments_structural.first] at h
    cases h
  · rw [hmore, first_attribute hopen] at h
    cases h
  · exact hplain

end

/-! ### Tokens that are read as they stand -/

section

variable {rule : Rule} {text : List Char} {m : Match}

/-- Whether some characters are an escaped name. -/
def IsEscaped (chars : List Char) : Prop :=
  chars.head? = some '\\' ∧ ∀ c ∈ chars, Text.isBlank c = false

theorem isBlank_of_escapedSets {set : CharSet} (hset : set ∈ escapedSets) (c : Char)
    (hc : set.has c = true) : Text.isBlank c = false := by
  simp only [escapedSets, List.mem_cons, List.not_mem_nil, or_false] at hset
  rcases hset with rfl | rfl
  · rw [CharSet.has_just.1 hc]
    decide
  · simpa [CharSet.has] using hc

/-- What a rule without a mark of its own reads. -/
structure Rule.ReadsPlain (rule : Rule) (text : List Char) (m : Match) (piece rest : List Char)
    (scope : String) : Prop where
  text : text = piece ++ rest
  nonempty : piece ≠ []
  start : m.start = 0
  stop : m.stop = piece.length
  scopes : rule.scopes = [some scope]
  scope : scope ∉ hiddenScopes
  quote : '"' ∈ piece → IsEscaped piece

theorem exists_readsPlain (h : rule.isPlain = true) (hm : rule.pattern.match? text = some m) :
    ∃ piece rest scope, rule.ReadsPlain text m piece rest scope := by
  simp only [Rule.isPlain, Bool.and_eq_true, beq_iff_eq] at h
  obtain ⟨⟨⟨⟨⟨htidy, hone⟩, hscope⟩, -⟩, -⟩, hquote⟩ := h
  obtain ⟨scope, hscopes⟩ := List.length_eq_one_iff.1 hone
  rw [hscopes, List.all_cons, List.all_nil, Bool.and_true] at hscope
  obtain ⟨name, rfl, hname⟩ : ∃ name, scope = some name ∧ name ∉ hiddenScopes := by
    cases scope with
    | none => cases hscope
    | some name => exact ⟨name, rfl, by simpa using hscope⟩
  have hpositive := (Rule.keepsContract_of_isTidy (hone.symm ▸ htidy)).consumes _ _ hm
  have htidy' := htidy
  simp only [Pattern.isTidy, Bool.and_eq_true] at htidy'
  obtain ⟨t, ht, rfl⟩ := Pattern.matches_of_match? htidy'.1.1.1 htidy'.1.1.2 hm
  obtain ⟨piece, hpiece, hpos⟩ := ht.leads
  have hlength : t.pos = piece.length := hpos.trans (Nat.zero_add _)
  have hne : piece ≠ [] := by
    rintro rfl
    exact absurd hlength (Nat.ne_of_gt hpositive)
  refine ⟨piece, t.rest, name, hpiece, hne, rfl, hlength, hscopes, hname, fun hmem => ?_⟩
  rcases Bool.or_eq_true_iff.1 hquote with havoids | hescaped
  · obtain ⟨piece', hpiece', hpos', hall⟩ := ht.avoids havoids
    obtain rfl : piece' = piece := List.append_cancel_right (hpiece'.symm.trans hpiece)
    exact absurd rfl (hall '"' hmem)
  · obtain ⟨hstart, hsets⟩ := Bool.and_eq_true_iff.1 hescaped
    obtain ⟨c, hc, hhead⟩ := ht.startsIn hstart
    obtain rfl := List.mem_singleton.1 hc
    obtain ⟨piece', hpiece', -, hall⟩ := ht.leadsOver fun set hset =>
      isBlank_of_escapedSets (List.contains_iff_mem.1 (List.all_eq_true.1 hsets set hset))
    obtain rfl : piece' = piece := List.append_cancel_right (hpiece'.symm.trans hpiece)
    refine ⟨?_, hall⟩
    obtain ⟨d, piece, rfl⟩ := List.exists_cons_of_ne_nil hne
    rw [show text = d :: (piece ++ t.rest) from hpiece] at hhead
    exact hhead

/-- What the rule for the name of a package reads. -/
structure ReadsPackage (text : List Char) (m : Match) (name blanks rest : List Char) : Prop where
  text : text = name ++ (blanks ++ ':' :: ':' :: rest)
  nonempty : name ≠ []
  allBlank : ∀ c ∈ blanks, Text.isBlank c = true
  quote : '"' ∉ name
  stop : m.stop = (name ++ (blanks ++ [':', ':'])).length
  captures : m.captures = [⟨3, name.length + blanks.length, name.length + blanks.length + 2⟩,
    ⟨2, name.length, name.length + blanks.length⟩, ⟨1, 0, name.length⟩]

theorem exists_readsPackage (hm : packageRule.pattern.match? text = some m) :
    ∃ name blanks rest, ReadsPackage text m name blanks rest := by
  obtain ⟨t, ht, rfl⟩ := Pattern.matches_of_match? (by decide) (by decide) hm
  obtain ⟨_, ⟨-, rfl⟩, _, ⟨_, ⟨a, hname, rfl⟩, b, hblanks, rfl⟩, d, hcolons, rfl⟩ := ht
  obtain ⟨name, htext, hpos, hquote⟩ := hname.avoids (show namePattern.avoids '"' by decide)
  have hsets : ∀ set ∈ (Pattern.repeated true 0 none (.one .blank)).sets, ∀ c, set.has c = true →
      Text.isBlank c = true := by
    intro set hset c hc
    obtain rfl := List.mem_singleton.1 hset
    exact hc
  obtain ⟨blanks, hrest, hpos', hall⟩ := hblanks.leadsOver hsets
  obtain ⟨_, ⟨x, hx, hxcolon, rfl⟩, y, hy, hycolon, rfl⟩ := hcolons
  obtain rfl := CharSet.has_just.1 hxcolon
  obtain rfl := CharSet.has_just.1 hycolon
  obtain ⟨more, hmore⟩ := List.head?_eq_some_iff.1 hx
  have hbehind : b.rest = ':' :: more := hmore
  obtain ⟨rest, hrest'⟩ := List.head?_eq_some_iff.1 hy
  have hmore' : more = ':' :: rest := by
    have htail : b.rest.tail = ':' :: rest := hrest'
    rwa [hbehind] at htail
  have ha : a.pos = name.length := hpos.trans (Nat.zero_add _)
  have hb : b.pos = name.length + blanks.length := ha ▸ hpos'
  have hcaptures : b.captures = [⟨1, 0, a.pos⟩] := by
    rw [hblanks.captures_eq rfl]
    show _ :: a.captures = _
    rw [hname.captures_eq rfl]
  refine ⟨name, blanks, rest, ?_, ?_, hall, fun hmem => hquote '"' hmem rfl, ?_, ?_⟩
  · rw [← hmore', ← hbehind]
    exact htext.trans (congrArg _ hrest)
  · rintro rfl
    exact absurd ha (Nat.ne_of_gt (hname.pos_lt rfl))
  · show b.pos + 1 + 1 = _
    rw [hb]
    simp [Nat.add_assoc]
  · show [_, _] ++ b.captures = _
    rw [hcaptures, ha]
    show [(⟨3, b.pos, b.pos + 1 + 1⟩ : Capture), ⟨2, a.pos, b.pos⟩, _] = _
    rw [hb, ha]

/-- A group behind some characters is one token if it is not empty. -/
theorem groupTokens_cons {front piece behind : List Char} (htext : text = front ++ piece ++ behind)
    {group : Nat} (hgroup : m.capture? group = some ⟨group, front.length, (front ++ piece).length⟩)
    (base : Nat) (scopes : List String) (scope : Option String) (rest : List (Nat × Option String)) :
    groupTokens base text scopes m front.length ((group, scope) :: rest) =
      (groupTokens base text scopes m (front ++ piece).length rest).map
        ((if piece = [] then []
          else [⟨.ofList piece, base + Text.byteSize front, scopes ++ scope.toList⟩]) ++ ·) := by
  have hfront : text.take front.length = front := by rw [htext, List.append_assoc, List.take_left]
  have hpiece : text.take (front ++ piece).length = front ++ piece := by rw [htext, List.take_left]
  rw [groupTokens, hgroup]
  dsimp only
  by_cases hempty : piece = []
  · rw [if_pos (by simp [hempty]), hempty, List.append_nil]
    simp
  · rw [if_neg (by simpa using hempty), if_neg (not_not.2 rfl), if_neg hempty, hfront, hpiece,
      List.drop_left]
    rfl

/-- The tokens of a package name: the name, the blanks, if there are any, and the colons. -/
theorem ReadsPackage.matchTokens_eq {name blanks rest : List Char}
    (h : ReadsPackage text m name blanks rest) (base : Nat) (scopes : List String) :
    matchTokens base text scopes packageRule m = some
      (⟨.ofList name, base, scopes ++ [Role.packageName.scope]⟩ ::
        (if blanks = [] then []
          else [⟨.ofList blanks, base + Text.byteSize name, scopes ++ [Role.blank.scope]⟩]) ++
        [⟨.ofList [':', ':'], base + Text.byteSize (name ++ blanks),
          scopes ++ [Role.scopeResolution.scope]⟩]) := by
  have hname : m.capture? 1 = some ⟨1, ([] : List Char).length, ([] ++ name).length⟩ := by
    rw [Match.capture?, h.captures]
    rfl
  have hblanks : m.capture? 2 = some ⟨2, name.length, (name ++ blanks).length⟩ := by
    rw [Match.capture?, h.captures, List.length_append]
    rfl
  have hlength : (name ++ blanks ++ [':', ':']).length = name.length + blanks.length + 2 := by
    rw [List.length_append, List.length_append]
    rfl
  have hcolons : m.capture? 3 =
      some ⟨3, (name ++ blanks).length, (name ++ blanks ++ [':', ':']).length⟩ := by
    rw [Match.capture?, h.captures, hlength, List.length_append]
    rfl
  have htext : text = name ++ blanks ++ (':' :: ':' :: rest) := by rw [h.text, List.append_assoc]
  have htext' : text = name ++ blanks ++ [':', ':'] ++ rest := by
    rw [htext, List.append_assoc _ [':', ':']]
    rfl
  have hstop : (name ++ blanks ++ [':', ':']).length = m.stop := by rw [h.stop, List.append_assoc]
  show groupTokens base text (scopes ++ []) m ([] : List Char).length [(1, some Role.packageName.scope),
    (2, some Role.blank.scope), (3, some Role.scopeResolution.scope)] = _
  rw [groupTokens_cons h.text hname, List.nil_append, groupTokens_cons htext hblanks,
    groupTokens_cons htext' hcolons, groupTokens, if_pos hstop, if_neg h.nonempty,
    if_neg (List.cons_ne_nil _ _)]
  simp [Text.byteSize]

end

end Grammar

end HdlIndex
