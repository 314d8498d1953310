import HdlIndex.Macro.Expansion

/-! Argument lists as they are written: trivia, an opening parenthesis, arguments with commas between
them, and a closing bracket. Brackets in an argument are balanced and protect the commas inside. Main
statement: what is split off such a list are its arguments without the trivia at their ends, and what
is left are the tokens behind it. -/

namespace HdlIndex

/-- Tokens in which each opening bracket has a closing one behind it, and none is closed that was not
opened. Commas stand inside brackets only, unless they are allowed everywhere. -/
inductive IsBalanced : (commas : Bool) → List Lexeme → Prop
  | nil {commas : Bool} : IsBalanced commas []
  | token {commas : Bool} {t : Lexeme} {rest : List Lexeme} (hopening : t.kind ≠ .opening)
      (hclosing : t.kind ≠ .closing) (hcomma : t.kind = .comma → commas = true)
      (hrest : IsBalanced commas rest) : IsBalanced commas (t :: rest)
  | group {commas : Bool} {opener closer : Lexeme} {inner rest : List Lexeme}
      (hopener : opener.kind = .opening) (hcloser : closer.kind = .closing)
      (hinner : IsBalanced true inner) (hrest : IsBalanced commas rest) :
      IsBalanced commas (opener :: (inner ++ closer :: rest))

/-- Tokens without brackets are balanced. -/
theorem IsBalanced.of_flat {commas : Bool} {tokens : List Lexeme}
    (h : ∀ t ∈ tokens, t.kind ≠ .opening ∧ t.kind ≠ .closing ∧ (t.kind = .comma → commas = true)) :
    IsBalanced commas tokens := by
  induction tokens with
  | nil => exact .nil
  | cons t rest ih =>
    obtain ⟨⟨hopening, hclosing, hcomma⟩, hrest⟩ := List.forall_mem_cons.1 h
    exact .token hopening hclosing hcomma (ih hrest)

/-- An argument list behind a name. -/
structure ArgumentList where
  /-- What stands in front of the opening parenthesis. -/
  gap : List Lexeme
  opener : Lexeme
  first : List Lexeme
  /-- The other arguments, each with the comma in front of it. -/
  others : List (Lexeme × List Lexeme)
  closer : Lexeme
  gap_trivia : ∀ t ∈ gap, t.isTrivia
  opener_kind : opener.kind = .opening
  opener_text : opener.text = "("
  closer_kind : closer.kind = .closing
  first_balanced : IsBalanced false first
  others_balanced : ∀ other ∈ others, other.1.kind = .comma ∧ IsBalanced false other.2

namespace ArgumentList

def arguments (l : ArgumentList) : List (List Lexeme) := l.first :: l.others.map (·.2)

/-- The tokens between the parentheses. -/
def inner (l : ArgumentList) : List Lexeme :=
  l.first ++ l.others.flatMap fun other => other.1 :: other.2

def tokens (l : ArgumentList) : List Lexeme := l.gap ++ l.opener :: (l.inner ++ [l.closer])

end ArgumentList

namespace Expansion

/-! ### One token -/

section

variable {t : Lexeme} (depth : Nat) (current rest : List Lexeme)

theorem splitArguments_opening (ht : t.kind = .opening) :
    splitArguments depth current (t :: rest) = splitArguments (depth + 1) (t :: current) rest := by
  simp only [splitArguments, ht]

theorem splitArguments_closing (ht : t.kind = .closing) :
    splitArguments (depth + 1) current (t :: rest) = splitArguments depth (t :: current) rest := by
  simp only [splitArguments, ht]

theorem splitArguments_end (ht : t.kind = .closing) :
    splitArguments 0 current (t :: rest) =
      some ([trimBoth Lexeme.isTrivia current.reverse], rest) := by
  simp only [splitArguments, ht]

theorem splitArguments_comma (ht : t.kind = .comma) :
    splitArguments 0 current (t :: rest) =
      (splitArguments 0 [] rest).map fun (arguments, behind) =>
        (trimBoth Lexeme.isTrivia current.reverse :: arguments, behind) := by
  simp only [splitArguments, ht, if_true]

/-- All other tokens go into the argument, as do commas inside of brackets. -/
theorem splitArguments_token (hopening : t.kind ≠ .opening) (hclosing : t.kind ≠ .closing)
    (hcomma : t.kind = .comma → 0 < depth) :
    splitArguments depth current (t :: rest) = splitArguments depth (t :: current) rest := by
  cases hkind : t.kind with
  | opening => exact absurd hkind hopening
  | closing => exact absurd hkind hclosing
  | comma =>
    have hinside : depth ≠ 0 := Nat.pos_iff_ne_zero.1 (hcomma hkind)
    simp only [splitArguments, hkind, if_neg hinside]
  | _ => simp only [splitArguments, hkind]

end

/-! ### Argument lists -/

/-- Balanced tokens go into the argument as they are. -/
theorem splitArguments_append {commas : Bool} {tokens : List Lexeme} (h : IsBalanced commas tokens)
    {depth : Nat} (hdepth : commas = true → 0 < depth) (current rest : List Lexeme) :
    splitArguments depth current (tokens ++ rest) =
      splitArguments depth (tokens.reverse ++ current) rest := by
  induction h generalizing depth current rest with
  | nil => rfl
  | token hopening hclosing hcomma _ ih =>
    rw [List.cons_append,
      splitArguments_token depth current _ hopening hclosing fun ht => hdepth (hcomma ht), ih hdepth]
    simp
  | group hopener hcloser _ _ ihinner ihrest =>
    rw [List.cons_append, List.append_assoc, List.cons_append,
      splitArguments_opening depth current _ hopener, ihinner fun _ => Nat.succ_pos depth,
      splitArguments_closing depth _ _ hcloser, ihrest hdepth]
    simp

theorem splitArguments_inner {first : List Lexeme} (hfirst : IsBalanced false first)
    {others : List (Lexeme × List Lexeme)}
    (hothers : ∀ other ∈ others, other.1.kind = .comma ∧ IsBalanced false other.2)
    {closer : Lexeme} (hcloser : closer.kind = .closing) (behind : List Lexeme) :
    splitArguments 0 []
        (first ++ (others.flatMap (fun other => other.1 :: other.2) ++ closer :: behind)) =
      some ((first :: others.map (·.2)).map (trimBoth Lexeme.isTrivia), behind) := by
  induction others generalizing first with
  | nil =>
    rw [splitArguments_append hfirst (by simp), List.flatMap_nil, List.nil_append,
      splitArguments_end _ _ hcloser]
    simp
  | cons other others ih =>
    obtain ⟨⟨hcomma, hother⟩, hothers⟩ := List.forall_mem_cons.1 hothers
    rw [splitArguments_append hfirst (by simp), List.flatMap_cons, List.cons_append,
      List.cons_append, List.append_assoc, splitArguments_comma _ _ hcomma, ih hother hothers]
    simp

/-- What is split off a list as it is written are its arguments, without the trivia at their ends. -/
theorem arguments?_tokens (l : ArgumentList) (behind : List Lexeme) :
    arguments? (l.tokens ++ behind) =
      some (l.arguments.map (trimBoth Lexeme.isTrivia), behind) := by
  have hopener : l.opener.isTrivia = false := by
    simp [Lexeme.isTrivia, l.opener_kind, LexKind.isTrivia]
  have hskip : (l.tokens ++ behind).dropWhile Lexeme.isTrivia =
      l.opener :: (l.inner ++ l.closer :: behind) := by
    rw [ArgumentList.tokens, List.append_assoc, List.dropWhile_append_of_pos l.gap_trivia]
    simp [hopener]
  rw [arguments?, hskip]
  simp only [l.opener_text, beq_self_eq_true, if_true, ArgumentList.inner, List.append_assoc]
  exact splitArguments_inner l.first_balanced l.others_balanced l.closer_kind behind

/-- A name that has a definition with parameters, other than the two that are known without one, takes
the arguments behind it. -/
theorem readCall_tokens {env : Env} {call : Lexeme} {d : MacroDef} {params : List Parameter}
    (hfile : call.name ≠ "__FILE__") (hline : call.name ≠ "__LINE__")
    (hd : env.macros.get? call.name = some d) (hparams : d.params = some params) (l : ArgumentList)
    (behind : List Lexeme) :
    readCall env call (l.tokens ++ behind) =
      (.definition d (l.arguments.map (trimBoth Lexeme.isTrivia)), behind) := by
  simp [readCall, hfile, hline, hd, MacroDef.isFunctionLike, hparams, arguments?_tokens]

end Expansion

end HdlIndex
