import HdlIndex.Proofs.Preprocess.Branches

/-! What an item leaves is the end of what it was given: items only take tokens from the front, and
put none back. So every token that a file is read from is one of its own. What an item does is put its
own token out, make its own definition, expand its own invocation, or none of these. -/

namespace HdlIndex

namespace Expansion

theorem splitArguments_suffix {depth : Nat} {current tokens : List Lexeme}
    {found : List (List Lexeme) × List Lexeme}
    (h : splitArguments depth current tokens = some found) : found.2 <:+ tokens := by
  induction tokens generalizing depth current found with
  | nil => simp [splitArguments] at h
  | cons t rest ih =>
    have weaken {tail : List Lexeme} (htail : tail <:+ rest) : tail <:+ t :: rest :=
      htail.trans (List.suffix_cons t rest)
    simp only [splitArguments] at h
    split at h
    · exact weaken (ih h)
    · split at h
      · cases h
        exact List.suffix_cons t rest
      · exact weaken (ih h)
    · split at h
      · obtain ⟨inner, hi, rfl⟩ := Option.map_eq_some_iff.1 h
        exact weaken (show inner.2 <:+ rest from ih hi)
      · exact weaken (ih h)
    · exact weaken (ih h)

theorem arguments?_suffix {tokens : List Lexeme} {found : List (List Lexeme) × List Lexeme}
    (h : arguments? tokens = some found) : found.2 <:+ tokens := by
  have hskip : tokens.dropWhile Lexeme.isTrivia <:+ tokens := List.dropWhile_suffix _
  unfold arguments? at h
  split at h
  · next t rest ht =>
    split at h
    · rw [ht] at hskip
      exact (splitArguments_suffix h).trans ((List.suffix_cons t rest).trans hskip)
    · cases h
  · cases h

theorem readCall_suffix (env : Env) (call : Lexeme) (rest : List Lexeme) :
    (readCall env call rest).2 <:+ rest := by
  have hrefl := List.suffix_refl rest
  simp only [readCall]
  split
  · exact hrefl
  · split
    · exact hrefl
    · split
      · exact hrefl
      · split
        · split
          · exact hrefl
          · next h => exact arguments?_suffix h
        · exact hrefl

end Expansion

/-- An effect that puts nothing out and defines nothing; it may include a file. -/
def Effect.IsSilent : Effect → Prop
  | .emit _ | .expansion _ | .define _ => False
  | _ => True

namespace Item

open Expansion (Env)

theorem skipInline_suffix (tokens : List Lexeme) : skipInline tokens <:+ tokens :=
  List.dropWhile_suffix _

theorem skipLine_suffix (tokens : List Lexeme) : skipLine tokens <:+ tokens :=
  List.dropWhile_suffix _

theorem conditional_suffix (macros : MacroTable) (conditions : List Bool) (t : Lexeme)
    (rest : List Lexeme) : (conditional macros conditions t rest).rest <:+ rest := by
  have htest := test_suffix macros t rest
  have hskip (tokens : List Lexeme) : skipBranch 0 tokens <:+ tokens := skipBranch_suffix 0 tokens
  have hrefl := List.suffix_refl rest
  simp only [conditional]
  split
  · split
    · exact htest
    · exact (hskip _).trans htest
  · split
    · exact htest
    · exact (hskip _).trans htest
  · split
    · exact htest
    · split
      · exact htest
      · exact (hskip _).trans htest
  · split
    · exact hrefl
    · exact hskip rest
    · exact hrefl
  · split <;> exact hrefl

theorem defaultTokens_suffix (depth : Nat) (tokens : List Lexeme) :
    (defaultTokens depth tokens).2 <:+ tokens := by
  induction tokens generalizing depth with
  | nil => exact List.suffix_refl _
  | cons t rest ih =>
    have hkeep (n : Nat) : (defaultTokens n rest).2 <:+ t :: rest :=
      (ih n).trans (List.suffix_cons t rest)
    simp only [defaultTokens]
    split
    · exact List.suffix_refl _
    · split
      · exact List.suffix_refl _
      · exact List.suffix_refl _
      · exact hkeep _
      · exact hkeep _
      · exact hkeep _

theorem parameters_suffix (tokens : List Lexeme) : (parameters tokens).2.2 <:+ tokens := by
  fun_induction parameters tokens with
  | case1 => exact List.suffix_refl _
  | case2 t rest _ ih | case3 t rest _ ih | case4 t rest _ ih | case5 t rest _ ih =>
    exact ih.trans (List.suffix_cons t rest)
  | case6 t rest => exact List.suffix_cons t rest
  | case7 | case8 => exact List.suffix_refl _
  | case9 t rest _ sign more hsign _ written params diagnostics behind hparams ih =>
    have hskip := skipInline_suffix rest
    rw [hparams] at ih
    rw [hsign] at hskip
    have hmore : more <:+ t :: rest :=
      (List.suffix_cons sign more).trans (hskip.trans (List.suffix_cons t rest))
    exact ih.trans ((defaultTokens_suffix 0 more).trans hmore)
  | case10 t rest _ sign more hsign _ params diagnostics behind hparams ih =>
    have hskip := skipInline_suffix rest
    rw [hparams] at ih
    rw [hsign] at hskip
    exact ih.trans (hskip.trans (List.suffix_cons t rest))
  | case11 => exact List.nil_suffix
  | case12 t rest params diagnostics behind hparams _ _ _ _ _ _ _ _ ih =>
    rw [hparams] at ih
    exact ih.trans (List.suffix_cons t rest)

theorem define_suffix (t : Lexeme) (rest : List Lexeme) : (define t rest).rest <:+ rest := by
  have h := skipInline_suffix rest
  unfold define
  split
  · exact List.nil_suffix
  · next name behind hname =>
    rw [hname] at h
    split
    · exact (skipLine_suffix _).trans h
    · refine (skipLine_suffix _).trans (List.IsSuffix.trans ?_ ((List.suffix_cons name behind).trans h))
      split
      · next bracket more =>
        split
        · exact (parameters_suffix more).trans (List.suffix_cons bracket more)
        · exact List.suffix_refl _
      · exact List.suffix_refl _

theorem angleSpec_suffix (before : List Char) (tokens : List Lexeme) :
    (angleSpec before tokens).2 <:+ tokens := by
  induction tokens generalizing before with
  | nil => exact List.suffix_refl _
  | cons t rest ih =>
    simp only [angleSpec]
    split
    · exact List.suffix_refl _
    · split
      · exact List.suffix_cons t rest
      · exact (ih _).trans (List.suffix_cons t rest)

theorem includeSpec_suffix (env : Env) (tokens : List Lexeme) :
    (includeSpec env tokens).2.2 <:+ tokens := by
  unfold includeSpec
  split
  · exact List.suffix_refl _
  · next s rest =>
    split
    · exact List.suffix_cons s rest
    · split
      · exact angleSpec_suffix [] _
      · split
        · exact (Expansion.readCall_suffix env s rest).trans (List.suffix_cons s rest)
        · exact List.suffix_refl _

theorem inclusion_suffix (env : Env) (t : Lexeme) (rest : List Lexeme) :
    (inclusion env t rest).rest <:+ rest := by
  have h := (includeSpec_suffix env (skipInline rest)).trans (skipInline_suffix rest)
  unfold inclusion
  split
  · next hspec => rwa [hspec] at h
  · next hspec =>
    rw [hspec] at h
    exact (skipLine_suffix _).trans h

theorem directive_suffix (env : Env) (t : Lexeme) (rest : List Lexeme) :
    (directive env t rest).rest <:+ rest := by
  have hoperand := operand_suffix rest
  have hinline := skipInline_suffix rest
  unfold directive
  split
  · exact define_suffix t rest
  · split
    · next h => rwa [h] at hoperand
    · next h => rwa [h] at hoperand
  · exact List.suffix_refl _
  · exact inclusion_suffix env t rest
  · exact List.suffix_refl _
  · exact skipLine_suffix rest
  · split
    · next s more hs =>
      rw [hs] at hinline
      show (if s.kind = .string then more else s :: more) <:+ rest
      split
      · exact (List.suffix_cons s more).trans hinline
      · exact hinline
    · exact List.nil_suffix
  · exact hoperand
  · exact Expansion.readCall_suffix env t rest

/-- The tokens behind an item are the end of the tokens behind its first one. -/
theorem read_suffix (env : Env) (conditions : List Bool) (t : Lexeme) (rest : List Lexeme) :
    (read env conditions t rest).rest <:+ rest := by
  unfold read
  split
  · exact conditional_suffix env.macros conditions t rest
  · exact directive_suffix env t rest
  · exact List.suffix_refl _

/-! ### Effects -/

theorem isSilent_conditional (macros : MacroTable) (conditions : List Bool) (t : Lexeme)
    (rest : List Lexeme) : (conditional macros conditions t rest).effect.IsSilent := by
  simp only [conditional]
  split
  · trivial
  · trivial
  · split
    · trivial
    · split <;> trivial
  · split <;> trivial
  · split <;> trivial

/-- What an item can do. -/
theorem effect_read (env : Env) (conditions : List Bool) (t : Lexeme) (rest : List Lexeme) :
    (read env conditions t rest).effect = .emit t ∨
      (read env conditions t rest).effect = (define t rest).effect ∨
      (read env conditions t rest).effect =
        .expansion (Expansion.expandInvocation env t rest).1 ∨
      (read env conditions t rest).effect.IsSilent := by
  unfold read
  split
  · exact .inr (.inr (.inr (isSilent_conditional env.macros conditions t rest)))
  · unfold directive
    split
    · exact .inr (.inl rfl)
    · split <;> exact .inr (.inr (.inr trivial))
    · exact .inr (.inr (.inr trivial))
    · refine .inr (.inr (.inr ?_))
      unfold inclusion
      split <;> trivial
    · exact .inr (.inr (.inr trivial))
    · exact .inr (.inr (.inr trivial))
    · split <;> exact .inr (.inr (.inr trivial))
    · exact .inr (.inr (.inr trivial))
    · exact .inr (.inr (.inl rfl))
  · exact .inl rfl

end Item

end HdlIndex
