import HdlIndex.Proofs.Preprocess.Provenance
import Mathlib.Data.List.Chain

/-! Escapes in the body of a definition. A quote stands for a double quote, an escaped quote for one
behind a backslash, a line continuation for a blank and a pasting for nothing. A pasting takes the
token behind it as it is written, so that an escape there is not resolved. Main statement: all escapes
are resolved if, and for escapes as they are written only if, none stands right behind a pasting. -/

namespace HdlIndex

/-- Whether a token of this kind stands for another text in the body of a definition. -/
def LexKind.isEscape : LexKind → Bool
  | quote | escapedQuote | lineContinuation | paste => true
  | _ => false

theorem LexKind.isEscape_eq_false {k : LexKind} (hquote : k ≠ .quote) (hescaped : k ≠ .escapedQuote)
    (hcontinuation : k ≠ .lineContinuation) (hpaste : k ≠ .paste) : k.isEscape = false := by
  cases k <;> simp_all [isEscape]

/-- The text that a token of the body of a definition stands for. -/
def Lexeme.meaning (t : Lexeme) : String :=
  match t.kind with
  | .quote => "\""
  | .escapedQuote => "\\\""
  | .lineContinuation => " "
  | .paste => ""
  | _ => t.text

theorem Lexeme.meaning_of_not_escape {t : Lexeme} (h : t.kind.isEscape = false) :
    t.meaning = t.text := by
  unfold meaning
  split <;> simp_all [LexKind.isEscape]

theorem Lexeme.meaning_of_paste {t : Lexeme} (h : t.kind = .paste) : t.meaning = "" := by
  simp [meaning, h]

namespace Expansion

/-- The texts of tokens in a row. -/
def joinTexts (tokens : List Lexeme) : String := .join (tokens.map (·.text))

/-- The texts that the tokens of a body stand for, in a row. -/
def joinMeanings (tokens : List Lexeme) : String := .join (tokens.map (·.meaning))

/-- What the resolution of escapes makes of tokens: right behind a pasting the text counts, elsewhere
what it stands for. -/
def resolvedText : List Lexeme → String
  | [] => ""
  | t :: rest =>
    if t.kind = .paste then
      match rest with
      | [] => ""
      | b :: rest => b.text ++ resolvedText rest
    else t.meaning ++ resolvedText rest

/-- No escape stands right behind a pasting. -/
def Separate (tokens : List Lexeme) : Prop :=
  tokens.IsChain fun a b => a.kind = .paste → b.kind.isEscape = false

instance (tokens : List Lexeme) : Decidable (Separate tokens) :=
  inferInstanceAs (Decidable (List.IsChain _ _))

variable {tokens rest : List Lexeme} {t b : Lexeme}

/-! ### The text -/

theorem resolvedText_cons (h : t.kind ≠ .paste) (rest : List Lexeme) :
    resolvedText (t :: rest) = t.meaning ++ resolvedText rest := by
  simp [resolvedText.eq_def (t :: rest), h]

theorem resolvedText_paste (h : t.kind = .paste) (b : Lexeme) (rest : List Lexeme) :
    resolvedText (t :: b :: rest) = b.text ++ resolvedText rest := by
  simp [resolvedText, h]

theorem resolvedText_paste_nil (h : t.kind = .paste) : resolvedText [t] = "" := by
  simp [resolvedText, h]

theorem joinTexts_reverse_cons (t : Lexeme) (done : List Lexeme) :
    joinTexts (t :: done).reverse = joinTexts done.reverse ++ t.text := by
  simp [joinTexts]

theorem joinTexts_resolveEscapesFrom (done tokens : List Lexeme) :
    joinTexts (resolveEscapesFrom done tokens) = joinTexts done.reverse ++ resolvedText tokens := by
  fun_induction resolveEscapesFrom done tokens with
  | case1 done => simp [resolvedText]
  | case2 done t rest hkind ih | case3 done t rest hkind ih | case4 done t rest hkind ih =>
    rw [ih, resolvedText_cons (by simp [hkind]), Lexeme.meaning, hkind, joinTexts_reverse_cons,
      String.append_assoc]
    rfl
  | case5 t hkind a done b rest ih =>
    -- The token behind joins the last one that is done, with the text it is written with.
    rw [ih, resolvedText_paste hkind, joinTexts_reverse_cons, joinTexts_reverse_cons]
    simp [paste, String.append_assoc]
  | case6 t hkind done =>
    rw [resolvedText_paste_nil hkind, String.append_empty]
  | case7 t hkind b rest ih =>
    rw [ih, resolvedText_paste hkind]
    simp [joinTexts]
  | case8 done t rest hquote hescaped hcontinuation hpaste ih =>
    have hmeaning : t.meaning = t.text := Lexeme.meaning_of_not_escape
      (LexKind.isEscape_eq_false hquote hescaped hcontinuation hpaste)
    rw [ih, resolvedText_cons hpaste, hmeaning, joinTexts_reverse_cons, String.append_assoc]

theorem joinTexts_resolveEscapes (tokens : List Lexeme) :
    joinTexts (resolveEscapes tokens) = resolvedText tokens := by
  rw [resolveEscapes, joinTexts_resolveEscapesFrom]
  simp [joinTexts]

/-- Without escapes there is nothing to resolve. -/
theorem resolveEscapesFrom_of_not_escape (h : ∀ t ∈ tokens, t.kind.isEscape = false)
    (done : List Lexeme) : resolveEscapesFrom done tokens = done.reverse ++ tokens := by
  fun_induction resolveEscapesFrom done tokens with
  | case1 done => simp
  | case2 _ t _ hkind _ | case3 _ t _ hkind _ | case4 _ t _ hkind _ | case5 t hkind _ _ _ _ _
  | case6 t hkind _ | case7 t hkind _ _ _ =>
    have ht := h t List.mem_cons_self
    simp [hkind, LexKind.isEscape] at ht
  | case8 done t rest _ _ _ _ ih =>
    rw [ih (List.forall_mem_cons.1 h).2, List.reverse_cons, List.append_assoc]
    rfl

theorem resolveEscapes_of_not_escape (h : ∀ t ∈ tokens, t.kind.isEscape = false) :
    resolveEscapes tokens = tokens := by
  rw [resolveEscapes, resolveEscapesFrom_of_not_escape h]
  rfl

/-! ### Nothing to resolve behind a pasting -/

theorem Separate.tail (h : Separate (t :: rest)) : Separate rest := List.IsChain.tail h

/-- In front of a token of another kind there is nothing to look at. -/
theorem Separate.cons (h : Separate rest) (ht : t.kind ≠ .paste) : Separate (t :: rest) := by
  cases rest with
  | nil => exact .singleton t
  | cons b rest => exact .cons_cons (fun hpaste => absurd hpaste ht) h

theorem Separate.behind_paste (h : Separate (t :: b :: rest)) (ht : t.kind = .paste) :
    b.kind.isEscape = false := by
  cases h with
  | cons_cons hb _ => exact hb ht

theorem Separate.resolvedText_eq (h : Separate tokens) : resolvedText tokens = joinMeanings tokens := by
  fun_induction resolvedText tokens with
  | case1 => rfl
  | case2 t hpaste => simp [joinMeanings, Lexeme.meaning_of_paste hpaste]
  | case3 t hpaste b rest ih =>
    have hb := Lexeme.meaning_of_not_escape (h.behind_paste hpaste)
    simp [joinMeanings, Lexeme.meaning_of_paste hpaste, hb, ih h.tail.tail]
  | case4 t rest hpaste ih => simp [joinMeanings, ih h.tail]

theorem Separate.resolveEscapesFrom (h : Separate tokens) {done : List Lexeme}
    (hdone : ∀ t ∈ done, t.kind.isEscape = false) :
    ∀ t ∈ Expansion.resolveEscapesFrom done tokens, t.kind.isEscape = false := by
  fun_induction Expansion.resolveEscapesFrom done tokens with
  | case1 done | case6 _ _ done => simpa using hdone
  | case2 done t rest _ ih | case3 done t rest _ ih | case4 done t rest _ ih =>
    exact ih h.tail (List.forall_mem_cons.2 ⟨rfl, hdone⟩)
  | case5 t _ a done b rest ih =>
    have hpaste : (paste a b).kind.isEscape = false := by
      dsimp only [paste]
      split <;> rfl
    exact ih h.tail.tail (List.forall_mem_cons.2 ⟨hpaste, fun u hu => hdone u (by simp [hu])⟩)
  | case7 t hkind b rest ih => exact ih h.tail.tail (List.forall_mem_singleton.2 (h.behind_paste hkind))
  | case8 done t rest hquote hescaped hcontinuation hpaste ih =>
    exact ih h.tail (List.forall_mem_cons.2
      ⟨LexKind.isEscape_eq_false hquote hescaped hcontinuation hpaste, hdone⟩)

/-- Escapes that are longer than what they stand for show in the text if they are not resolved. -/
theorem separate_of_resolvedText
    (hlong : ∀ t ∈ tokens, t.kind.isEscape → t.meaning.length < t.text.length) :
    (joinMeanings tokens).length ≤ (resolvedText tokens).length ∧
      ((resolvedText tokens).length = (joinMeanings tokens).length → Separate tokens) := by
  fun_induction resolvedText tokens with
  | case1 => exact ⟨Nat.le_refl _, fun _ => .nil⟩
  | case2 t hpaste =>
    exact ⟨by simp [joinMeanings, Lexeme.meaning_of_paste hpaste], fun _ => .singleton t⟩
  | case3 t hpaste b rest ih =>
    obtain ⟨hle, hseparate⟩ := ih fun u hu => hlong u (by simp [hu])
    have hmeanings : (joinMeanings (t :: b :: rest)).length =
        b.meaning.length + (joinMeanings rest).length := by
      simp [joinMeanings, Lexeme.meaning_of_paste hpaste]
    rw [hmeanings, String.length_append]
    cases hescape : b.kind.isEscape with
    -- An escape behind a pasting makes the text too long, and nothing behind it can make up for that.
    | true =>
      have := hlong b (by simp) hescape
      exact ⟨by omega, fun h => by omega⟩
    | false =>
      have hb : b.kind ≠ .paste := fun hp => by simp [hp, LexKind.isEscape] at hescape
      rw [Lexeme.meaning_of_not_escape hescape]
      exact ⟨by omega, fun h => .cons_cons (fun _ => hescape) ((hseparate (by omega)).cons hb)⟩
  | case4 t rest hpaste ih =>
    obtain ⟨hle, hseparate⟩ := ih fun u hu => hlong u (by simp [hu])
    have hmeanings : (joinMeanings (t :: rest)).length =
        t.meaning.length + (joinMeanings rest).length := by
      simp [joinMeanings]
    rw [hmeanings, String.length_append]
    exact ⟨by omega, fun h => (hseparate (by omega)).cons hpaste⟩

/-- The resolution of escapes gives what the tokens stand for, but for a token right behind a pasting,
which is taken as it is. So if no escape stands right behind a pasting, the text is what all tokens
stand for, and no escape is left; for escapes that are written longer than what they stand for, as the
grammar has them, the text is this one only then. -/
theorem resolveEscapes_iff_separate (tokens : List Lexeme) :
    joinTexts (resolveEscapes tokens) = resolvedText tokens ∧
      (Separate tokens → joinTexts (resolveEscapes tokens) = joinMeanings tokens ∧
        ∀ t ∈ resolveEscapes tokens, t.kind.isEscape = false) ∧
      ((∀ t ∈ tokens, t.kind.isEscape → t.meaning.length < t.text.length) →
        joinTexts (resolveEscapes tokens) = joinMeanings tokens → Separate tokens) := by
  rw [joinTexts_resolveEscapes]
  refine ⟨rfl, fun h => ⟨h.resolvedText_eq, h.resolveEscapesFrom (by simp)⟩, fun hlong htext => ?_⟩
  exact (separate_of_resolvedText hlong).2 (congrArg String.length htext)

/-- Quotes around two names that are pasted into one and a line continuation. -/
def quotedName : List Lexeme :=
  [⟨"`\"", .quote, 0, 2, "a.sv"⟩, ⟨"x", .identifier, 2, 3, "a.sv"⟩, ⟨"``", .paste, 3, 5, "a.sv"⟩,
   ⟨"y", .identifier, 5, 6, "a.sv"⟩, ⟨"\\\n", .lineContinuation, 6, 8, "a.sv"⟩,
   ⟨"`\"", .quote, 8, 10, "a.sv"⟩]

theorem resolveEscapes_iff_separate_quotedName :
    Separate quotedName ∧ joinTexts (resolveEscapes quotedName) = "\"xy \"" ∧
      ∀ t ∈ resolveEscapes quotedName, t.kind.isEscape = false := by
  obtain ⟨-, hresolved, hseparate⟩ := resolveEscapes_iff_separate quotedName
  have h : Separate quotedName := hseparate (by decide) (by decide)
  exact ⟨h, (hresolved h).1.trans (by decide), (hresolved h).2⟩

/-- Quotes around an argument, with a pasting in front of the second. -/
def pastedQuote : List Lexeme :=
  [⟨"`\"", .quote, 0, 2, "a.sv"⟩, ⟨"x", .identifier, 2, 3, "a.sv"⟩, ⟨"``", .paste, 3, 5, "a.sv"⟩,
   ⟨"`\"", .quote, 5, 7, "a.sv"⟩]

/-- The second quote is not resolved, although it is one. -/
theorem joinTexts_resolveEscapes_pasted :
    joinTexts (resolveEscapes pastedQuote) = "\"x`\"" ∧ joinMeanings pastedQuote = "\"x\"" := by
  decide

end Expansion

end HdlIndex
