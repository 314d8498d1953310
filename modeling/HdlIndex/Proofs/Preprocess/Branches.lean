import HdlIndex.Proofs.Preprocess.Conditional

/-! Conditionals are decided in two places: in a file, where a branch that is not taken is skipped
by counting what opens and closes in it, and in the body of a definition, where every token is
looked at and a row of branches says which of the open conditionals are active. Main statement: on
tokens of one line that use no definition the two select the same tokens, also if the conditionals
are not properly nested or lack their names. -/

namespace HdlIndex

/-- Whether the directive opens a conditional. -/
def Conditional.opens : Conditional → Bool
  | ifdef | ifndef => true
  | elsif | otherwise | endif => false

theorem Conditional.takesName_of_opens {c : Conditional} (h : c.opens = true) :
    c.takesName = true := by
  cases c <;> simp_all [opens, takesName]

namespace Expansion

/-! ### Names behind a directive -/

/-- Without line ends, what may stand in front of a name is the same in bodies and in files. -/
theorem bodyOperand_eq_operand {tokens : List Lexeme} (h : ∀ t ∈ tokens, t.endsLine = false) :
    bodyOperand tokens = Item.operand tokens := by
  have hdrop : tokens.dropWhile Lexeme.isTrivia = Item.skipInline tokens := by
    induction tokens with
    | nil => rfl
    | cons t rest ih =>
      have ht : t.isTrivia = t.isInline := by
        have hend := h t List.mem_cons_self
        unfold Lexeme.isTrivia Lexeme.isInline
        unfold Lexeme.endsLine at hend
        cases hk : t.kind <;> simp_all [LexKind.isTrivia]
      have ih := ih fun u hu => h u (List.mem_cons_of_mem _ hu)
      rw [Item.skipInline, List.dropWhile_cons, List.dropWhile_cons, ht]
      split
      · exact ih
      · rfl
  unfold bodyOperand Item.operand
  exact hdrop ▸ rfl

theorem bodyTest_eq_test (macros : MacroTable) {t : Lexeme} (ht : t.conditional.takesName)
    {rest : List Lexeme} (h : ∀ u ∈ rest, u.endsLine = false) :
    bodyTest macros t rest = ((Item.test macros t rest).1, (Item.test macros t rest).2.2) := by
  rw [bodyTest, if_pos ht, bodyOperand_eq_operand h, Item.test]
  rcases Item.operand rest with ⟨name | name, behind⟩ <;> rfl

theorem bodyTest_of_not_takesName (macros : MacroTable) {t : Lexeme}
    (ht : t.conditional.takesName = false) (rest : List Lexeme) :
    bodyTest macros t rest = (false, rest) := by
  rw [bodyTest, ht]
  rfl

/-! ### Branches that are not active -/

theorem skipBranch_dropWhile_trivia (nested : Nat) (tokens : List Lexeme) :
    Item.skipBranch nested (tokens.dropWhile Lexeme.isTrivia) = Item.skipBranch nested tokens := by
  induction tokens with
  | nil => rfl
  | cons t rest ih =>
    rw [List.dropWhile_cons]
    split
    · next ht =>
      have hk : t.kind ≠ .conditional := by
        intro hk
        simp [Lexeme.isTrivia, hk, LexKind.isTrivia] at ht
      rw [ih, Preprocess.skipBranch_of_not_conditional hk]
    · rfl

/-- A name behind a directive that is skipped makes no difference. -/
theorem skipBranch_bodyOperand (nested : Nat) (tokens : List Lexeme) :
    Item.skipBranch nested (bodyOperand tokens).2 = Item.skipBranch nested tokens := by
  have hdrop := skipBranch_dropWhile_trivia nested tokens
  unfold bodyOperand
  split
  · next t rest ht =>
    rw [ht] at hdrop
    split
    · next hk =>
      rw [← hdrop, Preprocess.skipBranch_of_not_conditional (by simp [hk])]
    · exact hdrop
  · next ht =>
    rw [ht] at hdrop
    exact hdrop

theorem skipBranch_bodyTest (macros : MacroTable) (t : Lexeme) (nested : Nat)
    (rest : List Lexeme) :
    Item.skipBranch nested (bodyTest macros t rest).2 = Item.skipBranch nested rest := by
  unfold bodyTest
  split
  · exact skipBranch_bodyOperand nested rest
  · rfl

variable (env : Env) (inner : Option Expander)

theorem expandFrom_conditional {t : Lexeme} (ht : t.kind = .conditional) {branches next : Branches}
    {rest : List Lexeme} (h : branches.step t (bodyTest env.macros t rest).1 = some next)
    (w : Work) :
    expandFrom env inner branches w (t :: rest) =
      expandFrom env inner next w (bodyTest env.macros t rest).2 := by
  rw [expandFrom, if_pos ht]
  simp only [h]

theorem expandFrom_inactive {t : Lexeme} (ht : t.kind ≠ .conditional) {branches : Branches}
    (h : branches.active = false) (w : Work) (rest : List Lexeme) :
    expandFrom env inner branches w (t :: rest) = expandFrom env inner branches w rest := by
  rw [expandFrom, if_neg ht, h]
  rfl

/-- The outermost of the open conditionals is reported at the end. -/
theorem expandFrom_nil_append (opened : Branches) (b : Branch) (outer : Branches) (w : Work) :
    expandFrom env inner (opened ++ b :: outer) w [] = expandFrom env inner (b :: outer) w [] := by
  rw [expandFrom, expandFrom, List.getLast?_append, List.getLast?_cons, Option.some_or]

/-- While a branch is not active, the conditionals opened inside it only have to be counted. -/
theorem expandFrom_skipBranch {b : Branch} (hb : b.active = false) (outer : Branches) (w : Work)
    (opened : Branches) (tokens : List Lexeme) :
    expandFrom env inner (opened ++ b :: outer) w tokens =
      expandFrom env inner (b :: outer) w (Item.skipBranch opened.length tokens) := by
  match tokens with
  | [] => exact expandFrom_nil_append env inner opened b outer w
  | t :: rest =>
    have hbehind := length_bodyTest_le env.macros t rest
    by_cases ht : t.kind = .conditional
    · -- The directive changes the row as the count says, and its name is skipped later.
      have hstep (next : Branches)
          (hstep : (opened ++ b :: outer).step t (bodyTest env.macros t rest).1 =
            some (next ++ b :: outer))
          (hcount : Item.skipBranch opened.length (t :: rest) =
            Item.skipBranch next.length rest) :
          expandFrom env inner (opened ++ b :: outer) w (t :: rest) =
            expandFrom env inner (b :: outer) w (Item.skipBranch opened.length (t :: rest)) := by
        rw [expandFrom_conditional env inner ht hstep,
          expandFrom_skipBranch hb outer w next (bodyTest env.macros t rest).2,
          skipBranch_bodyTest, hcount]
      cases hc : t.conditional with
      | ifdef =>
        exact hstep (_ :: opened) (by simp [Branches.step, hc]; rfl)
          (by simp [Item.skipBranch, ht, hc])
      | ifndef =>
        exact hstep (_ :: opened) (by simp [Branches.step, hc]; rfl)
          (by simp [Item.skipBranch, ht, hc])
      | elsif =>
        rcases opened with _ | ⟨c, opened⟩
        · simp [Item.skipBranch, ht, hc]
        · exact hstep (_ :: opened) (by simp [Branches.step, hc]; rfl)
            (by simp [Item.skipBranch, ht, hc])
      | otherwise =>
        rcases opened with _ | ⟨c, opened⟩
        · simp [Item.skipBranch, ht, hc]
        · exact hstep (_ :: opened) (by simp [Branches.step, hc]; rfl)
            (by simp [Item.skipBranch, ht, hc])
      | endif =>
        rcases opened with _ | ⟨c, opened⟩
        · simp [Item.skipBranch, ht, hc]
        · exact hstep opened (by simp [Branches.step, hc]) (by simp [Item.skipBranch, ht, hc])
    · have hinactive : Branches.active (opened ++ b :: outer) = false := by
        simp [Branches.active, hb]
      rw [expandFrom_inactive env inner ht hinactive, expandFrom_skipBranch hb outer w opened rest,
        Preprocess.skipBranch_of_not_conditional ht]
termination_by tokens.length
decreasing_by
  · exact Nat.lt_succ_of_le hbehind
  · simp

end Expansion

namespace Item

/-! ### Items of a file -/

theorem skipBranch_suffix (nested : Nat) (tokens : List Lexeme) :
    skipBranch nested tokens <:+ tokens := by
  induction tokens generalizing nested with
  | nil => exact List.suffix_refl _
  | cons t rest ih =>
    have hrest (n : Nat) : skipBranch n rest <:+ t :: rest := (ih n).trans (List.suffix_cons t rest)
    simp only [skipBranch]
    split
    · split
      · exact hrest _
      · exact hrest _
      · exact List.suffix_refl _
      · exact List.suffix_refl _
      · exact List.suffix_refl _
      · exact hrest _
      · exact hrest _
    · exact hrest _

theorem operand_suffix (tokens : List Lexeme) : (operand tokens).2 <:+ tokens := by
  have hskip : skipInline tokens <:+ tokens := List.dropWhile_suffix _
  unfold operand
  split
  · next t rest ht =>
    rw [ht] at hskip
    split
    · exact (List.suffix_cons t rest).trans hskip
    · exact hskip
  · exact List.nil_suffix

theorem test_suffix (macros : MacroTable) (t : Lexeme) (rest : List Lexeme) :
    (test macros t rest).2.2 <:+ rest := by
  have h := operand_suffix rest
  unfold test
  split <;> simp_all

/-- Whether a token continues or closes a conditional. -/
def ClosesBranch (t : Lexeme) : Prop :=
  t.kind = .conditional ∧ t.conditional.opens = false

/-- A branch is skipped up to a directive that continues or closes it. -/
theorem closesBranch_skipBranch (nested : Nat) (tokens : List Lexeme) :
    ∀ t ∈ (skipBranch nested tokens).head?, ClosesBranch t := by
  induction tokens generalizing nested with
  | nil => simp [skipBranch]
  | cons u rest ih =>
    simp only [skipBranch]
    split
    · next hk =>
      split
      · exact ih _
      · exact ih _
      · next hc => simp [ClosesBranch, hk, hc, Conditional.opens]
      · next hc => simp [ClosesBranch, hk, hc, Conditional.opens]
      · next hc => simp [ClosesBranch, hk, hc, Conditional.opens]
      · exact ih _
      · exact ih _
    · exact ih _

end Item

/-- Whether an effect makes the open conditionals into others, or leaves them. -/
def Effect.Sets (e : Effect) (before after : List Bool) : Prop :=
  e = .conditions after ∨ e = .nothing ∧ after = before

namespace Preprocess

open Expansion (Branch Branches Expander Work expandFrom bodyTest)

/-! ### The two in step -/

/-- Whether the open conditionals of a file in front of `tokens` are the given branches. All are
active, or all but the innermost, and then its branch has just been skipped. -/
structure SameBranches (conditions : List Bool) (branches : Branches) (tokens : List Lexeme) :
    Prop where
  taken : conditions = branches.map (·.taken)
  outer : ∀ b ∈ branches.tail, b.active = true
  innermost : branches.active = true ∨ ∀ t ∈ tokens.head?, Item.ClosesBranch t

namespace SameBranches

variable {conditions : List Bool} {branches : Branches} {t : Lexeme} {rest : List Lexeme}

theorem of_active (h : ∀ b ∈ branches, b.active = true) (tokens : List Lexeme) :
    SameBranches (branches.map (·.taken)) branches tokens where
  taken := rfl
  outer := fun b hb => h b (List.mem_of_mem_tail hb)
  innermost := .inl (List.all_eq_true.2 h)

/-- In front of a token that closes no branch, all branches are active. -/
theorem active (h : SameBranches conditions branches (t :: rest)) (ht : ¬Item.ClosesBranch t) :
    ∀ b ∈ branches, b.active = true := by
  rcases h.innermost with hactive | hcloses
  · exact List.all_eq_true.1 hactive
  · exact absurd (hcloses t rfl) ht

end SameBranches

section Step

variable (env : Expansion.Env) (inner : Option Expander)

/-- Whether an item of a file that starts with the token `t` does what expansion does with `t`. -/
def Mirrors (conditions : List Bool) (branches : Branches) (w : Work) (t : Lexeme)
    (rest : List Lexeme) (item : Item) : Prop :=
  item.rest <:+ rest ∧ ∃ after next w', item.effect.Sets conditions after ∧
    expandFrom env inner branches w (t :: rest) = expandFrom env inner next w' item.rest ∧
    SameBranches after next item.rest

variable {conditions : List Bool} {branches outer : Branches} {t : Lexeme} {rest : List Lexeme}
  (w : Work)

/-- A directive that makes a branch the innermost one: if it is not active, it is skipped. -/
theorem mirrors_branch {b : Branch} {defined : Bool} {behind : List Lexeme} {item : Item}
    (ht : t.kind = .conditional) (houter : ∀ c ∈ outer, c.active = true)
    (htest : bodyTest env.macros t rest = (defined, behind)) (hbehind : behind <:+ rest)
    (hstep : branches.step t defined = some (b :: outer))
    (heffect : item.effect.Sets conditions (b.taken :: outer.map (·.taken)))
    (hitem : item.rest = if b.active then behind else Item.skipBranch 0 behind) :
    Mirrors env inner conditions branches w t rest item := by
  have hexpand : expandFrom env inner branches w (t :: rest) =
      expandFrom env inner (b :: outer) w behind := by
    rw [Expansion.expandFrom_conditional env inner ht (by rw [htest]; exact hstep), htest]
  by_cases hb : b.active = true
  · rw [if_pos hb] at hitem
    refine ⟨hitem ▸ hbehind, _, b :: outer, w, heffect, hitem ▸ hexpand, rfl, houter, .inl ?_⟩
    refine List.all_eq_true.2 ?_
    intro c hc
    rcases List.mem_cons.1 hc with rfl | hc
    · exact hb
    · exact houter c hc
  · rw [if_neg hb] at hitem
    rw [Bool.not_eq_true] at hb
    have hskip := Expansion.expandFrom_skipBranch env inner hb outer w [] behind
    refine ⟨?_, _, b :: outer, w, heffect, ?_, rfl, houter, .inr ?_⟩
    · rw [hitem]
      exact (Item.skipBranch_suffix 0 behind).trans hbehind
    · rw [hexpand, hitem]
      exact hskip
    · rw [hitem]
      exact Item.closesBranch_skipBranch 0 behind

/-- A directive that belongs to no conditional. -/
theorem mirrors_stray {defined : Bool} {behind : List Lexeme} {item : Item}
    (ht : t.kind = .conditional) (htest : bodyTest env.macros t rest = (defined, behind))
    (hbehind : behind <:+ rest) (hstep : Branches.step [] t defined = none)
    (heffect : item.effect = .nothing) (hitem : item.rest = behind) :
    Mirrors env inner [] [] w t rest item := by
  refine ⟨hitem ▸ hbehind, [], [], w.report (.strayBodyConditional t.text) t, .inr ⟨heffect, rfl⟩,
    ?_, rfl, by simp, .inl rfl⟩
  rw [expandFrom, if_pos ht]
  simp only [htest, hstep, hitem]

section Directives

variable (ht : t.kind = .conditional) (hline : ∀ u ∈ rest, u.endsLine = false)
  (h : SameBranches conditions branches (t :: rest))
include ht h

section Names

include hline

theorem mirrors_opening (hopens : t.conditional.opens = true) :
    Mirrors env inner conditions branches w t rest
      (Item.conditional env.macros conditions t rest) := by
  have hactive := h.active fun hcloses => absurd hopens (by simp [hcloses.2])
  have htest := Expansion.bodyTest_eq_test env.macros (Conditional.takesName_of_opens hopens) hline
  cases hc : t.conditional <;> simp only [hc, Conditional.opens, Bool.false_eq_true] at hopens
  all_goals
    refine mirrors_branch env inner w (b := ⟨t, _, _⟩) ht hactive htest
      (Item.test_suffix env.macros t rest) (by simp only [Branches.step, hc]; rfl) (.inl ?_) ?_
    · simp only [Item.conditional, hc, h.taken]
    · simp only [Item.conditional, hc]

theorem mirrors_elsif (hc : t.conditional = .elsif) :
    Mirrors env inner conditions branches w t rest
      (Item.conditional env.macros conditions t rest) := by
  have htest := Expansion.bodyTest_eq_test env.macros (by rw [hc]; rfl) hline
  have hbehind := Item.test_suffix env.macros t rest
  obtain ⟨rfl, houter, -⟩ := h
  rcases branches with _ | ⟨b, outer⟩
  · exact mirrors_stray env inner w ht htest hbehind (by simp only [Branches.step, hc])
      (by simp only [Item.conditional, hc, List.map_nil])
      (by simp only [Item.conditional, hc, List.map_nil])
  · refine mirrors_branch env inner w ht houter htest hbehind
      (by simp only [Branches.step, hc]; rfl) ?_ ?_
    · simp only [Item.conditional, hc, List.map_cons]
      cases b.taken <;> cases (Item.test env.macros t rest).1
      · exact .inr ⟨rfl, rfl⟩
      · exact .inl rfl
      · exact .inr ⟨rfl, rfl⟩
      · exact .inr ⟨rfl, rfl⟩
    · simp only [Item.conditional, hc, List.map_cons]
      split <;> rfl

end Names

theorem mirrors_else (hc : t.conditional = .otherwise) :
    Mirrors env inner conditions branches w t rest
      (Item.conditional env.macros conditions t rest) := by
  have htest := Expansion.bodyTest_of_not_takesName env.macros (t := t) (by rw [hc]; rfl) rest
  have hbehind := List.suffix_refl rest
  obtain ⟨rfl, houter, -⟩ := h
  rcases branches with _ | ⟨b, outer⟩
  · exact mirrors_stray env inner w ht htest hbehind (by simp only [Branches.step, hc])
      (by simp only [Item.conditional, hc, List.map_nil])
      (by simp only [Item.conditional, hc, List.map_nil])
  · refine mirrors_branch env inner w ht houter htest hbehind
      (by simp only [Branches.step, hc]; rfl) ?_ ?_
    · simp only [Item.conditional, hc, List.map_cons]
      cases b.taken
      · exact .inl rfl
      · exact .inr ⟨rfl, rfl⟩
    · simp only [Item.conditional, hc, List.map_cons]
      cases b.taken <;> rfl

theorem mirrors_endif (hc : t.conditional = .endif) :
    Mirrors env inner conditions branches w t rest
      (Item.conditional env.macros conditions t rest) := by
  have htest := Expansion.bodyTest_of_not_takesName env.macros (t := t) (by rw [hc]; rfl) rest
  have hbehind := List.suffix_refl rest
  obtain ⟨rfl, houter, -⟩ := h
  rcases branches with _ | ⟨b, outer⟩
  · exact mirrors_stray env inner w ht htest hbehind (by simp only [Branches.step, hc])
      (by simp only [Item.conditional, hc, List.map_nil])
      (by simp only [Item.conditional, hc, List.map_nil])
  · have hitem : Item.conditional env.macros ((b :: outer).map (·.taken)) t rest =
        ⟨[], .conditions (outer.map (·.taken)), rest⟩ := by
      simp only [Item.conditional, hc, List.map_cons]
    have hstep : Branches.step (b :: outer) t (bodyTest env.macros t rest).1 = some outer := by
      simp only [Branches.step, hc]
    rw [hitem]
    refine ⟨hbehind, _, outer, w, .inl rfl, ?_, .of_active houter _⟩
    rw [Expansion.expandFrom_conditional env inner ht hstep, htest]

end Directives

/-- What a conditional directive does in a file it does in a body. -/
theorem mirrors_conditional (ht : t.kind = .conditional)
    (hline : ∀ u ∈ rest, u.endsLine = false) (h : SameBranches conditions branches (t :: rest)) :
    Mirrors env inner conditions branches w t rest
      (Item.conditional env.macros conditions t rest) := by
  cases hc : t.conditional with
  | ifdef => exact mirrors_opening env inner w ht hline h (by rw [hc]; rfl)
  | ifndef => exact mirrors_opening env inner w ht hline h (by rw [hc]; rfl)
  | elsif => exact mirrors_elsif env inner w ht hline h hc
  | otherwise => exact mirrors_else env inner w ht h hc
  | endif => exact mirrors_endif env inner w ht h hc

end Step

/-! ### Whole rows of tokens -/

section Run

variable (env : Env) (nested : Option Process) (chain : List Path) (file text : String)
  (sources : Sources) (limits : Limits) (inner : Option Expander)

theorem scan_sets {st : FileState} {run : RunState} {t : Lexeme} (ht : t.kind = .conditional)
    {rest : List Lexeme} {after : List Bool}
    (h : (Item.conditional run.macros st.conditions t rest).effect.Sets st.conditions after) :
    scan env nested chain file text st run (t :: rest) =
      scan env nested chain file text { st with conditions := after }
        { run with
          diagnostics := run.diagnostics ++
            (Item.conditional run.macros st.conditions t rest).diagnostics }
        (Item.conditional run.macros st.conditions t rest).rest := by
  have hread : Item.read (run.expansionEnv env.options.limits) st.conditions t rest =
      Item.conditional run.macros st.conditions t rest := by
    rw [Item.read, ht]
    rfl
  rw [scan, hread]
  rcases h with heffect | ⟨heffect, rfl⟩
  · rw [heffect]
    rfl
  · rw [heffect]
    rfl

/-- The tokens that a file writes are those that a body keeps, as long as the open conditionals are
the same. -/
theorem out_scan_of_sameBranches {tokens : List Lexeme}
    (hline : ∀ t ∈ tokens, t.kind ≠ .directive ∧ t.endsLine = false) (st : FileState)
    (run : RunState) {branches : Branches} (w : Work)
    (h : SameBranches st.conditions branches tokens) :
    (scan env nested chain file text st run tokens).1.out =
      (st.emit file
        (expandFrom ⟨run.macros, sources, limits⟩ inner branches w tokens).1).out := by
  match tokens with
  | [] =>
    have hkept : (expandFrom ⟨run.macros, sources, limits⟩ inner branches w []).1 = [] := by
      rw [expandFrom]
      split <;> rfl
    rw [hkept, scan]
    split <;> rfl
  | t :: rest =>
    have hrest : ∀ u ∈ rest, u.kind ≠ .directive ∧ u.endsLine = false := fun u hu =>
      hline u (List.mem_cons_of_mem _ hu)
    by_cases ht : t.kind = .conditional
    · obtain ⟨hsuffix, after, next, w', hsets, hexpand, hnext⟩ :=
        mirrors_conditional ⟨run.macros, sources, limits⟩ inner w ht (fun u hu => (hrest u hu).2) h
      have hlength := hsuffix.length_le
      rw [hexpand, scan_sets env nested chain file text ht hsets]
      exact out_scan_of_sameBranches (fun u hu => hrest u (hsuffix.subset hu))
        { st with conditions := after } _ w' hnext
    · have hdirective := (hline t List.mem_cons_self).1
      have hactive : branches.active = true := List.all_eq_true.2 (h.active fun hc => ht hc.1)
      have hkept : (expandFrom ⟨run.macros, sources, limits⟩ inner branches w (t :: rest)).1 =
          t :: (expandFrom ⟨run.macros, sources, limits⟩ inner branches w rest).1 := by
        rw [expandFrom, if_neg ht, hactive, if_neg hdirective]
        rfl
      have hplain : t.isPlain := by simp [Lexeme.isPlain, ht, hdirective]
      rw [hkept, scan_plain env nested chain file text hplain,
        out_scan_of_sameBranches hrest (st.emit file [t]) run w ⟨h.taken, h.outer, .inl hactive⟩]
      rfl
termination_by tokens.length
decreasing_by
  · exact Nat.lt_succ_of_le hlength
  · simp

/-- The two evaluators of conditionals agree. On tokens that use no definition and end no line, a
file with no conditional open in front writes exactly the tokens that the expansion of a body keeps
under the same definitions, in their order and with their extents. The conditionals need not be
properly nested, and their directives may lack a name. -/
theorem scan_eq_expand (macros : MacroTable) {tokens : List Lexeme}
    (h : ∀ t ∈ tokens, t.kind ≠ .directive ∧ t.kind ≠ .newline ∧ t.kind ≠ .lineComment)
    (st : FileState) (run : RunState) (depth : Nat) (w : Work) :
    let kept := (Expansion.expand ⟨macros, sources, limits⟩ depth tokens w).1
    let after := (scan env nested chain file text { st with conditions := [] }
      { run with macros } tokens).1
    after.out = (st.emit file kept).out ∧
      after.out.stream.tokens.toList = st.out.stream.tokens.toList ++
        kept.map (fun t => (⟨t.text, t.start, t.stop⟩ : PostToken)) := by
  intro kept after
  have hline : ∀ t ∈ tokens, t.kind ≠ .directive ∧ t.endsLine = false := by
    intro t ht
    obtain ⟨hdirective, hnewline, hcomment⟩ := h t ht
    exact ⟨hdirective, by simp [Lexeme.endsLine, hnewline, hcomment]⟩
  have hout : after.out = (st.emit file kept).out := by
    cases depth <;>
      exact out_scan_of_sameBranches env nested chain file text sources limits _ hline
        { st with conditions := [] } { run with macros } w ⟨rfl, by simp, .inl rfl⟩
  exact ⟨hout, hout ▸ FileState.tokens_emit st file kept⟩

end Run

/-- A second `else`, a closing directive too many, and at the end a conditional without a name. -/
def unevenTokens : List Lexeme :=
  [⟨"`ifdef", .conditional, 0, 6, "a.sv"⟩, ⟨" ", .blank, 6, 7, "a.sv"⟩,
   ⟨"A", .identifier, 7, 8, "a.sv"⟩, ⟨"x", .identifier, 9, 10, "a.sv"⟩,
   ⟨"`else", .conditional, 11, 16, "a.sv"⟩, ⟨"`ifdef", .conditional, 17, 23, "a.sv"⟩,
   ⟨"`else", .conditional, 24, 29, "a.sv"⟩, ⟨"`endif", .conditional, 30, 36, "a.sv"⟩,
   ⟨"`else", .conditional, 37, 42, "a.sv"⟩, ⟨"y", .identifier, 43, 44, "a.sv"⟩,
   ⟨"`endif", .conditional, 45, 51, "a.sv"⟩, ⟨"`endif", .conditional, 52, 58, "a.sv"⟩,
   ⟨"`ifndef", .conditional, 59, 66, "a.sv"⟩, ⟨",", .comma, 66, 67, "a.sv"⟩]

theorem scan_eq_expand_uneven :
    (∀ t ∈ unevenTokens, t.kind ≠ .directive ∧ t.kind ≠ .newline ∧ t.kind ≠ .lineComment) ∧
      (Expansion.expand ⟨⟨[.user "A" []]⟩, .empty, {}⟩ 0 unevenTokens {}).1.map (·.text) =
        ["x", ","] ∧
      (scan ⟨Files.empty.provider, {}⟩ none [] "a.sv" "" {}
          { cache := .empty, macros := ⟨[.user "A" []]⟩ } unevenTokens).1.out.stream.tokens.toList =
        (Expansion.expand ⟨⟨[.user "A" []]⟩, .empty, {}⟩ 0 unevenTokens {}).1.map
          (fun t => ⟨t.text, t.start, t.stop⟩) :=
  ⟨by decide, by decide +kernel,
    (scan_eq_expand ⟨Files.empty.provider, {}⟩ none [] "a.sv" "" .empty {} ⟨[.user "A" []]⟩
      (by decide) {} { cache := .empty, macros := .empty } 0 {}).2⟩

end Preprocess

end HdlIndex
