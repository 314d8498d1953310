import HdlIndex.Proofs.Preprocess.Conditional

/-! Expansion to the end. What stands inside an invocation is expanded one level deeper, down to the
limit of the nesting, where nothing is expanded any more. Main statement: whatever the definitions and
the limits are, and at whatever depth, an expansion leaves neither invocations nor conditionals, so
that to expand the result once more changes nothing. -/

namespace HdlIndex.Expansion

/-! ### Depths -/

/-- What expands the tokens inside an invocation at this depth. -/
def inside (env : Env) (depth : Nat) : Option Expander :=
  match env.limits.expansionDepth - depth with
  | 0 => none
  | levels + 1 => some (expand env levels)

/-- Expands all invocations in tokens at this depth. -/
def expandTokens (env : Env) (depth : Nat) : Expander := fun tokens w =>
  expandFrom env (inside env depth) [] w tokens

/-- Expands an invocation at this depth. The results are its replacement, what is left of the tokens
behind its name, and the work done. -/
def expandAt (env : Env) (depth : Nat) (call : Lexeme) (rest : List Lexeme) (w : Work) :
    List Lexeme × List Lexeme × Work :=
  let (c, behind) := readCall env call rest
  let (tokens, w) := expandCall env (inside env depth) call c w
  (tokens, behind, w)

section

variable {env : Env} {inner : Option Expander} {call : Lexeme} {tokens rest : List Lexeme}

theorem expand_eq (env : Env) (levels : Nat) (h : levels ≤ env.limits.expansionDepth) :
    expand env levels = expandTokens env (env.limits.expansionDepth - levels) := by
  have hlevels : env.limits.expansionDepth - (env.limits.expansionDepth - levels) = levels := by
    omega
  unfold expandTokens inside
  rw [hlevels]
  cases levels <;> rfl

/-- The tokens inside an invocation stand one level deeper, if there is one. -/
theorem inside_eq (env : Env) (depth : Nat) :
    inside env depth =
      if depth < env.limits.expansionDepth then some (expandTokens env (depth + 1)) else none := by
  unfold inside
  split
  · next hlevels => rw [if_neg (by omega)]
  · next levels hlevels =>
    rw [if_pos (by omega), expand_eq env levels (by omega)]
    congr 2
    omega

theorem mem_inside {env : Env} {depth : Nat} {i : Expander} :
    i ∈ inside env depth ↔ depth < env.limits.expansionDepth ∧ expandTokens env (depth + 1) = i := by
  simp [inside_eq]

theorem expandInvocation_eq_expandAt (env : Env) (call : Lexeme) (rest : List Lexeme) :
    expandInvocation env call rest = expandAt env 0 call rest {} := rfl

/-! ### Tokens without invocations -/

/-- Without invocations and conditionals there is nothing to expand. -/
theorem expandFrom_of_plain (env : Env) (inner : Option Expander) (w : Work)
    (h : ∀ t ∈ tokens, t.isPlain) : expandFrom env inner [] w tokens = (tokens, w) := by
  induction tokens with
  | nil => simp [expandFrom]
  | cons t rest ih =>
    obtain ⟨ht, hrest⟩ := List.forall_mem_cons.1 h
    simp only [Lexeme.isPlain, Bool.and_eq_true, bne_iff_ne] at ht
    have hactive : Branches.active [] = true := rfl
    rw [expandFrom, if_neg ht.1, hactive, if_neg ht.2, ih hrest]
    rfl

/-! ### Results of expansions -/

theorem isPlain_of_readCall {t : Lexeme} {behind : List Lexeme}
    (h : readCall env call rest = (.literal t, behind)) : t.isPlain := by
  simp only [readCall] at h
  split at h
  · cases h
    rfl
  · split at h
    · cases h
      rfl
    · split at h
      · cases h
      · split at h
        · split at h <;> cases h
        · cases h

/-- A literal is plain, and all else comes from the tokens inside. -/
theorem isPlain_expandCall (env : Env)
    (hinner : ∀ i ∈ inner, ∀ tokens w, ∀ t ∈ (i tokens w).1, t.isPlain) (call : Lexeme)
    (rest : List Lexeme) (w : Work) :
    ∀ t ∈ (expandCall env inner call (readCall env call rest).1 w).1, t.isPlain := by
  cases hcall : (readCall env call rest).1 with
  | literal t => exact List.forall_mem_singleton.2 (isPlain_of_readCall (Prod.ext hcall rfl))
  | problem p => simp [expandCall]
  | definition d arguments =>
    simp only [expandCall, expandDefinition]
    split
    · simp
    · next i =>
      split
      · simp
      · split
        · simp
        · exact hinner i rfl _ _

theorem isPlain_expandFrom (env : Env)
    (hinner : ∀ i ∈ inner, ∀ tokens w, ∀ t ∈ (i tokens w).1, t.isPlain) (branches : Branches)
    (w : Work) (tokens : List Lexeme) :
    ∀ t ∈ (expandFrom env inner branches w tokens).1, t.isPlain := by
  fun_induction expandFrom env inner branches w tokens with
  | case1 | case2 => simp
  | case3 branches w t rest _ test branches' _ ih => exact ih
  | case4 branches w t rest _ test _ ih => exact ih
  | case5 branches w t rest _ _ ih => exact ih
  | case6 branches w t rest _ _ _ call expanded w' hexpanded behind w'' hbehind ih =>
    have hcall := isPlain_expandCall env hinner t rest w
    rw [hexpanded] at hcall
    rw [hbehind] at ih
    exact List.forall_mem_append.2 ⟨hcall, ih⟩
  | case7 branches w t rest hconditional _ hdirective behind w' hbehind ih =>
    rw [hbehind] at ih
    exact List.forall_mem_cons.2 ⟨by simp [Lexeme.isPlain, hconditional, hdirective], ih⟩

theorem isPlain_expand (env : Env) (levels : Nat) (tokens : List Lexeme) (w : Work) :
    ∀ t ∈ (expand env levels tokens w).1, t.isPlain := by
  induction levels generalizing tokens w with
  | zero => exact isPlain_expandFrom env (by simp) [] w tokens
  | succ levels ih =>
    refine isPlain_expandFrom env ?_ [] w tokens
    rintro i ⟨⟩
    exact ih

theorem isPlain_inside (env : Env) (depth : Nat) :
    ∀ i ∈ inside env depth, ∀ tokens w, ∀ t ∈ (i tokens w).1, t.isPlain := by
  intro i hi
  unfold inside at hi
  split at hi
  · cases hi
  · cases hi
    exact isPlain_expand env _

end

/-- An expansion goes on to the end, for any definitions and limits, at any depth, after any work: the
replacement of an invocation and the expansion of a list of tokens hold neither invocations nor
conditionals, and expanding them again, at any depth and under any definitions, gives the same tokens
back without any work, report or count. No other tokens are left as they are. -/
theorem expansion_reaches_fixed_point (env : Env) (depth : Nat) (call : Lexeme) (tokens : List Lexeme)
    (w : Work) :
    (∀ result ∈ [(expandAt env depth call tokens w).1, (expandTokens env depth tokens w).1],
      (∀ t ∈ result, t.kind ≠ .directive ∧ t.kind ≠ .conditional) ∧
      ∀ (env' : Env) (depth' : Nat) (w' : Work),
        expandTokens env' depth' result w' = (result, w')) ∧
    (expandTokens env depth tokens w = (tokens, w) ↔
      ∀ t ∈ tokens, t.kind ≠ .directive ∧ t.kind ≠ .conditional) := by
  have hinside := isPlain_inside env depth
  have hkinds (tokens : List Lexeme) :
      (∀ t ∈ tokens, t.isPlain) ↔ ∀ t ∈ tokens, t.kind ≠ .directive ∧ t.kind ≠ .conditional := by
    simp [Lexeme.isPlain, and_comm]
  have htokens := isPlain_expandFrom env hinside [] w tokens
  refine ⟨fun result hresult => ?_, ?_⟩
  · have hplain : ∀ t ∈ result, t.isPlain := by
      simp only [List.mem_cons, List.not_mem_nil, or_false] at hresult
      rcases hresult with rfl | rfl
      · exact isPlain_expandCall env hinside call tokens w
      · exact htokens
    exact ⟨(hkinds result).1 hplain, fun env' depth' w' => expandFrom_of_plain env' _ w' hplain⟩
  · rw [← hkinds]
    refine ⟨fun hsame => ?_, expandFrom_of_plain env _ w⟩
    rw [← expandTokens, hsame] at htokens
    exact htokens

end HdlIndex.Expansion
