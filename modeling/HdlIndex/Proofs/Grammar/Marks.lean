import HdlIndex.Proofs.Grammar.Pieces

/-! Scopes that mark tokens. If no context and no block has a scope, and every rule that gives it to its
tokens matches only texts that start with certain characters, then all tokens of the scope start with
one of them. Main statements: directives and invocations of macros start with a backtick, and opening
brackets with a bracket. -/

namespace HdlIndex

/-! ### The first character of a match -/

namespace Pattern

/-- Whether a match always starts with one of some characters. -/
def startsIn (chars : List Char) : Pattern → Bool
  | .one (.range first last) => first == last && chars.contains first
  | .seq (.edge _) q => q.startsIn chars
  | .seq p _ => p.startsIn chars
  | .group _ p => p.startsIn chars
  | _ => false

theorem Matches.startsIn {chars : List Char} {p : Pattern} {s t : MatchState}
    (hp : p.startsIn chars = true) (h : p.Matches s t) : ∃ c ∈ chars, s.rest.head? = some c := by
  fun_induction Pattern.startsIn chars p generalizing s t with
  | case1 first last =>
    obtain ⟨hsame, hfirst⟩ := Bool.and_eq_true_iff.1 hp
    obtain rfl := eq_of_beq hsame
    obtain ⟨c, hc, hhas, -⟩ := h
    obtain rfl : c = first := by
      simp only [CharSet.has, Bool.and_eq_true, decide_eq_true_eq] at hhas
      exact Char.le_antisymm hhas.2 hhas.1
    exact ⟨c, List.contains_iff_mem.1 hfirst, hc⟩
  | case2 e q ih =>
    obtain ⟨r, ⟨-, rfl⟩, hq⟩ := h
    exact ih hp hq
  | case3 p q hp' ih =>
    obtain ⟨r, hp', -⟩ := h
    exact ih hp hp'
  | case4 index p ih =>
    obtain ⟨r, hr, -⟩ := h
    exact ih hp hr
  | case5 => cases hp

end Pattern

namespace Grammar

variable {marks : String → Bool} {chars : List Char}

/-! ### Scopes on the stacks -/

/-- Whether the stacks hold no scope that marks tokens. -/
def Stacks.Unmarked (marks : String → Bool) (s : Stacks) : Prop :=
  ∀ scope ∈ s.scopes, marks scope = false

/-- What it is for scopes to mark tokens that start with certain characters: no scope of a context or
a block is one of them, and a rule has such a scope only if it stands for a single token that starts
with one of the characters. -/
structure Marks (g : Grammar) (marks : String → Bool) (chars : List Char) : Prop where
  empty : marks "" = false
  invalid : marks g.invalidScope = false
  contexts : ∀ c ∈ g.contexts, ∀ scope ∈ c.scope, marks scope = false
  pushed : ∀ rule ∈ g.rules, ∀ names, rule.action = some (.pushScopes names) →
    ∀ name ∈ names, marks name = false
  rules : ∀ rule ∈ g.rules, (∀ s ∈ rule.scopes, ∀ scope ∈ s, marks scope = false) ∨
    (∃ scope, rule.scopes = [scope]) ∧ rule.pattern.isTied ∧ rule.pattern.isSteady ∧
      rule.pattern.consumes ∧ rule.pattern.startsIn chars

variable {g : Grammar}

section

variable (hg : g.Marks marks chars)
include hg

theorem Marks.enter {s : Stacks} (h : s.Unmarked marks) (context : Nat) :
    (g.enter context s).Unmarked marks := by
  intro scope hscope
  rcases List.mem_append.1 hscope with hnew | hold
  · obtain ⟨c, hc, hcscope⟩ := Option.bind_eq_some_iff.1 (Option.mem_toList.1 hnew)
    exact hg.contexts c (List.mem_of_getElem? hc) scope hcscope
  · exact h scope hold

omit hg in
theorem unmarked_leave {s : Stacks} (h : s.Unmarked marks) : (leave s).Unmarked marks := by
  unfold leave
  split
  · exact fun scope hscope => h scope (List.mem_of_mem_drop hscope)
  · exact h

omit hg in
theorem unmarked_unwind {s : Stacks} (h : s.Unmarked marks) (names : List String) :
    Stacks.Unmarked marks { s with scopes := names.foldl unwind s.scopes } := by
  have hsublist : (names.foldl unwind s.scopes).Sublist s.scopes := by
    refine List.foldlRecOn (motive := fun scopes : List String => scopes.Sublist s.scopes) names _
      (List.Sublist.refl _) fun scopes hscopes name _ => ?_
    exact ((List.drop_sublist 1 _).trans (List.dropWhile_sublist _)).trans hscopes
  exact fun scope hscope => h scope (hsublist.subset hscope)

theorem Marks.applyAction {s : Stacks} (h : s.Unmarked marks) {rule : Rule} (hrule : rule ∈ g.rules)
    {action : StackAction Nat} (haction : rule.action = some action) :
    (g.applyAction s action).Unmarked marks := by
  cases action with
  | push context => exact hg.enter h context
  | pop replacement =>
    cases replacement with
    | none => exact unmarked_leave h
    | some context => exact hg.enter (unmarked_leave h) context
  | pushScopes names =>
    intro scope hscope
    rcases List.mem_append.1 hscope with hnew | hold
    · exact hg.pushed rule hrule names haction scope (List.mem_reverse.1 hnew)
    · exact h scope hold
  | popScopes names => exact unmarked_unwind h names

/-- Whether no scope of the state of a scan, now or in a snapshot, marks tokens. -/
structure ScanState.Unmarked (marks : String → Bool) (st : ScanState) : Prop where
  current : st.current.Unmarked marks
  saved : ∀ s ∈ st.saved, s.Unmarked marks

omit hg in
theorem ScanState.Unmarked.applySnapshot {st : ScanState} (h : st.Unmarked marks)
    (action : SnapshotAction) : (Grammar.applySnapshot st action).Unmarked marks := by
  cases action with
  | save => exact ⟨h.current, List.forall_mem_cons.2 ⟨h.current, h.saved⟩⟩
  | restore =>
    refine ⟨?_, h.saved⟩
    cases hsaved : st.saved with
    | nil => simpa [Grammar.applySnapshot, hsaved] using h.current
    | cons s rest => simpa [Grammar.applySnapshot, hsaved] using h.saved s (by simp [hsaved])
  | delete => exact ⟨h.current, fun s hs => h.saved s (List.mem_of_mem_drop hs)⟩

theorem Marks.applyRule {st : ScanState} (h : st.Unmarked marks) {rule : Rule}
    (hrule : rule ∈ g.rules) : (g.applyRule st rule).Unmarked marks := by
  unfold Grammar.applyRule
  cases rule.snapshot with
  | none =>
    cases haction : rule.action with
    | none => exact h
    | some action => exact ⟨hg.applyAction h.current hrule haction, h.saved⟩
  | some snapshot =>
    have hsnapshot := h.applySnapshot snapshot
    cases haction : rule.action with
    | none => exact hsnapshot
    | some action => exact ⟨hg.applyAction hsnapshot.current hrule haction, hsnapshot.saved⟩

/-! ### Tokens -/

/-- Whether a token starts with one of the characters if its scope marks it. -/
def IsMarked (marks : String → Bool) (chars : List Char) (t : Token) : Prop :=
  marks t.scope = true → ∃ c ∈ chars, t.text.toList.head? = some c

/-- A token with other scopes only is not marked. -/
theorem Marks.of_unmarked {scopes : List String} (h : ∀ scope ∈ scopes, marks scope = false)
    (text : String) (offset : Nat) : IsMarked marks chars ⟨text, offset, scopes⟩ := by
  intro hmarks
  replace hmarks : marks (scopes.getLastD "") = true := hmarks
  rw [List.getLastD_eq_getLast?] at hmarks
  cases hlast : scopes.getLast? with
  | none => simp [hlast, hg.empty] at hmarks
  | some scope => simp [hlast, h scope (List.mem_of_getLast? hlast)] at hmarks

theorem Marks.groupTokens {text : List Char} {m : Match} {base : Nat} {scopes : List String}
    (hscopes : ∀ scope ∈ scopes, marks scope = false) {pos : Nat}
    {groups : List (Nat × Option String)}
    (hgroups : ∀ group ∈ groups, ∀ scope ∈ group.2, marks scope = false) {tokens : List Token}
    (h : groupTokens base text scopes m pos groups = some tokens) :
    ∀ t ∈ tokens, IsMarked marks chars t := by
  induction groups generalizing pos tokens with
  | nil =>
    rw [Grammar.groupTokens] at h
    split at h
    · cases h
      simp
    · cases h
  | cons group rest ih =>
    obtain ⟨hgroup, hrest⟩ := List.forall_mem_cons.1 hgroups
    rw [Grammar.groupTokens] at h
    split at h
    · exact ih hrest h
    · split at h
      · exact ih hrest h
      · split at h
        · cases h
        · obtain ⟨more, hmore, rfl⟩ := Option.map_eq_some_iff.1 h
          refine List.forall_mem_cons.2 ⟨hg.of_unmarked (fun scope hscope => ?_) _ _, ih hrest hmore⟩
          rcases List.mem_append.1 hscope with hscope | hscope
          · exact hscopes scope hscope
          · exact hgroup scope (Option.mem_toList.1 hscope)

/-- A match gives its tokens scopes that do not mark tokens, or it is one token that starts as it has
to. -/
theorem Marks.matchTokens {rule : Rule} (hrule : rule ∈ g.rules) {text : List Char} {m : Match}
    (hm : rule.pattern.match? text = some m) {base : Nat} {scopes : List String}
    (hscopes : ∀ scope ∈ scopes, marks scope = false) {tokens : List Token}
    (h : matchTokens base text scopes rule m = some tokens) :
    ∀ t ∈ tokens, IsMarked marks chars t := by
  rcases hg.rules rule hrule with hunmarked | ⟨⟨scope, hscope⟩, htied, hsteady, hconsumes, hstarts⟩
  · have houter : ∀ scope ∈ scopes ++ (rule.scopes.headD none).toList, marks scope = false := by
      intro scope hscope
      rcases List.mem_append.1 hscope with hscope | hscope
      · exact hscopes scope hscope
      · cases hrow : rule.scopes with
        | nil => simp [hrow] at hscope
        | cons first rest =>
          refine hunmarked first (by simp [hrow]) scope ?_
          simpa [hrow] using hscope
    unfold Grammar.matchTokens at h
    dsimp only at h
    split at h
    · cases h
      simpa using hg.of_unmarked houter _ _
    · refine hg.groupTokens houter (fun group hgroup scope hscope => ?_) h
      refine hunmarked group.2 ?_ scope hscope
      exact List.mem_of_mem_tail (List.of_mem_zip hgroup).2
  · obtain ⟨t, ht, rfl⟩ := Pattern.matches_of_match? htied hsteady hm
    obtain ⟨c, hc, hhead⟩ := ht.startsIn hstarts
    have hpositive : 0 < t.pos := ht.pos_lt hconsumes
    simp only [Grammar.matchTokens, hscope, List.tail_cons, Option.some.injEq] at h
    subst h
    refine List.forall_mem_singleton.2 fun _ => ⟨c, hc, ?_⟩
    simpa [List.head?_take, Nat.ne_of_gt hpositive] using hhead

theorem Marks.unmatchedToken {scopes : List String} (h : ∀ scope ∈ scopes, marks scope = false)
    (stop : Nat) (pending : List Char) :
    ∀ t ∈ g.unmatchedToken scopes stop pending, IsMarked marks chars t := by
  unfold Grammar.unmatchedToken
  split
  · simp
  · refine List.forall_mem_singleton.2 (hg.of_unmarked (fun scope hscope => ?_) _ _)
    rcases List.mem_append.1 hscope with hscope | hscope
    · exact h scope hscope
    · exact List.mem_singleton.1 hscope ▸ hg.invalid

theorem Marks.scanFrom {st : ScanState} (hst : st.Unmarked marks) {offset : Nat}
    {pending text : List Char} {out result : Array Token}
    (hout : ∀ t ∈ out.toList, IsMarked marks chars t)
    (hscan : g.scanFrom st offset pending out text = .ok result) :
    ∀ t ∈ result.toList, IsMarked marks chars t := by
  induction hn : text.length using Nat.strong_induction_on
    generalizing st offset pending out text with
  | _ n ih =>
    subst hn
    have hcurrent : ∀ scope ∈ st.current.scopes.reverse, marks scope = false :=
      fun scope hscope => hst.current scope (List.mem_reverse.1 hscope)
    have hfront : ∀ t ∈ out.toList ++ g.unmatchedToken st.current.scopes.reverse offset pending,
        IsMarked marks chars t :=
      List.forall_mem_append.2 ⟨hout, hg.unmatchedToken hcurrent offset pending⟩
    cases text with
    | nil =>
      rw [Grammar.scanFrom] at hscan
      obtain rfl := Except.ok.inj hscan
      rwa [Array.toList_appendList]
    | cons c cs =>
      rcases step_of_scanFrom_ok hscan with hfirst | ⟨rule, m, tokens, hfirst, hstop, htokens⟩
      · rw [scanFrom_of_unmatched hfirst] at hscan
        exact ih cs.length (Nat.lt_succ_self _) hst hout hscan rfl
      · obtain ⟨hrule, hm⟩ := firstMatch_eq_some hfirst
        replace hrule := mem_rules_of_mem_rulesIn hrule
        rw [scanFrom_of_match hfirst hstop htokens] at hscan
        refine ih _ ?_ (hg.applyRule hst hrule) ?_ hscan rfl
        · rw [List.length_drop, List.length_cons]
          omega
        · rw [Array.toList_appendList, Array.toList_appendList]
          exact List.forall_mem_append.2 ⟨hfront, hg.matchTokens hrule hm hcurrent htokens⟩

theorem Marks.tokenize (text : String) : ∀ t ∈ g.tokenize text, IsMarked marks chars t := by
  have hstart : (g.startState none).Unmarked marks := by
    refine ⟨fun scope hscope => ?_, by simp [startState]⟩
    replace hscope := List.mem_reverse.1 hscope
    obtain ⟨c, hc, hcscope⟩ := Option.bind_eq_some_iff.1 (Option.mem_toList.1 hscope)
    exact hg.contexts c (List.mem_of_getElem? hc) scope hcscope
  unfold Grammar.tokenize
  split
  · next tokens hscan =>
    rw [Grammar.scan] at hscan
    cases hresult : g.scanFrom (g.startState none) 0 [] #[] text.toList with
    | error violation =>
      rw [hresult] at hscan
      cases hscan
    | ok result =>
      rw [hresult] at hscan
      cases hscan
      exact hg.scanFrom hstart (by simp) hresult
  · simp

end

/-! ### Grammars as written -/

/-- Whether an entry gives scopes that mark tokens only to single tokens that start with one of the
characters. -/
def Entry.keepsMarks (marks : String → Bool) (chars : List Char) : Entry → Bool
  | .splice _ => true
  | .rule source scopes action _ =>
    (scopes.all (!marks ·) ||
      scopes.length == 1 && (Pattern.ofChars? source.toList).any (·.startsIn chars)) &&
    action.all fun
      | .pushScopes names => names.all (!marks ·)
      | _ => true

/-- Whether scopes mark tokens that start with certain characters, in contexts as written. -/
def keepMarks (marks : String → Bool) (chars : List Char) (contexts : List ContextDef) : Bool :=
  !marks "" && !marks defaultInvalidScope &&
    contexts.all fun c => !marks c.scope && c.entries.all (Entry.keepsMarks marks chars)

section

variable {contexts : List ContextDef} (htidy : areTidy contexts)
  (hmarks : keepMarks marks chars contexts)
include htidy hmarks

theorem keepsMarks_of_written {e : Entry} (he : Written contexts e) :
    e.keepsMarks marks chars = true := by
  cases he with
  | listed hc he =>
    have hcontexts := List.all_eq_true.1 (Bool.and_eq_true_iff.1 hmarks).2 _ hc
    exact List.all_eq_true.1 (Bool.and_eq_true_iff.1 hcontexts).2 e he
  | inPlace h htarget _ =>
    have hnamed := isTidy_of_written htidy h
    rw [Entry.isTidy, Option.bind_some, htarget] at hnamed
    cases hnamed

theorem unmarked_of_writtenScope {name scope : String} (h : WrittenScope contexts name)
    (hscope : scope ∈ scopeOf name) : marks scope = false := by
  cases h with
  | listed hc =>
    have hcontexts := List.all_eq_true.1 (Bool.and_eq_true_iff.1 hmarks).2 _ hc
    unfold scopeOf at hscope
    split at hscope
    · cases hscope
    · obtain rfl := Option.some.inj hscope
      simpa using (Bool.and_eq_true_iff.1 hcontexts).1
  | inPlace h htarget =>
    have hnamed := isTidy_of_written htidy h
    rw [Entry.isTidy, Option.bind_some, htarget] at hnamed
    cases hnamed

/-- What contexts as written say of scopes holds in the grammar that they make. -/
theorem marks_ofDefs : (ofDefs contexts).Marks marks chars := by
  obtain ⟨⟨hempty, hinvalid⟩, -⟩ : (marks "" = false ∧ marks defaultInvalidScope = false) ∧ _ := by
    simpa only [keepMarks, Bool.and_eq_true, Bool.not_eq_true'] using hmarks
  unfold ofDefs
  split
  · next g hg =>
    obtain ⟨hcontexts, hdefault⟩ := comesFrom_of_build hg
    have hrules (rule : Rule) (hrule : rule ∈ g.rules) : rule.ComesFrom contexts := by
      obtain ⟨c, hc, hrule⟩ := List.mem_flatMap.1 hrule
      exact (hcontexts c hc).2 rule hrule
    refine ⟨hempty, hdefault ▸ hinvalid, fun c hc scope hscope => ?_, fun rule hrule => ?_,
      fun rule hrule => ?_⟩
    · obtain ⟨name, hname, hc⟩ := (hcontexts c hc).1
      exact unmarked_of_writtenScope htidy hmarks hname (hc ▸ hscope)
    · intro names hnames name hname
      obtain ⟨scopes, action, hwritten, -, -, hpushed⟩ := hrules rule hrule
      have hentry := keepsMarks_of_written htidy hmarks hwritten
      simp only [Entry.keepsMarks, hpushed names hnames, Option.all_some, Bool.and_eq_true,
        List.all_eq_true, Bool.not_eq_true'] at hentry
      exact hentry.2 name hname
    · obtain ⟨scopes, action, hwritten, hpattern, hscopes, -⟩ := hrules rule hrule
      have hentry := keepsMarks_of_written htidy hmarks hwritten
      have hform := isTidy_of_written htidy hwritten
      rw [Pattern.compile?] at hpattern
      simp only [Entry.isTidy, hpattern, Option.any_some, Pattern.isTidy, Bool.and_eq_true] at hform
      simp only [Entry.keepsMarks, hpattern, Option.any_some, Bool.and_eq_true, Bool.or_eq_true,
        List.all_eq_true, Bool.not_eq_true', beq_iff_eq] at hentry
      refine hentry.1.imp (fun hunmarked s hs scope hscope => ?_) fun hsingle => ?_
      · rw [hscopes] at hs
        obtain ⟨name, hname, rfl⟩ := List.mem_map.1 hs
        unfold scopeOf at hscope
        split at hscope
        · cases hscope
        · obtain rfl := Option.some.inj hscope
          exact hunmarked name hname
      · obtain ⟨hone, hstarts⟩ := hsingle
        obtain ⟨name, rfl⟩ := List.length_eq_one_iff.1 hone
        obtain ⟨⟨⟨htied, hsteady⟩, hconsumes⟩, -⟩ := hform.2.2
        exact ⟨⟨_, hscopes⟩, htied, hsteady, hconsumes, hstarts⟩
  · exact ⟨hempty, hinvalid, by simp, by simp [rules], by simp [rules]⟩

end

end Grammar

end HdlIndex
