import HdlIndex.Outline.Statement

/-! Moves of a cursor. A move reads tokens one after another and never one that is not there, so the
place it comes to says which tokens were read. Main statement: every place that a move comes to is
ahead of the one it started from. -/

namespace HdlIndex

/-! ### Repetitions -/

/-- Whether a step, repeated for as long as there is one, comes to an end, and where. -/
inductive Ends {σ : Type} (step : σ → Option σ) : σ → σ → Prop
  | stop {s : σ} (h : step s = none) : Ends step s s
  | step {s t u : σ} (h : step s = some t) (rest : Ends step t u) : Ends step s u

theorem Ends.stops {σ : Type} {step : σ → Option σ} {s t : σ} (h : Ends step s t) :
    step t = none := by
  induction h with
  | stop h => exact h
  | step _ _ ih => exact ih

/-- A repetition comes to one end only. -/
theorem Ends.unique {σ : Type} {step : σ → Option σ} {s t u : σ} (h : Ends step s t)
    (h' : Ends step s u) : t = u := by
  induction h with
  | stop hnone =>
    cases h' with
    | stop => rfl
    | step hsome _ => rw [hnone] at hsome; cases hsome
  | step hsome _ ih =>
    cases h' with
    | stop hnone => rw [hnone] at hsome; cases hsome
    | step hsome' rest =>
      obtain rfl := Option.some.inj (hsome.symm.trans hsome')
      exact ih rest

/-- Where every step lowers a measure, a bound of that length does not cut the repetition short. -/
theorem ends_iterate {σ α : Type} {step : σ → Option σ} (measure : σ → Nat)
    (hstep : ∀ s t, step s = some t → measure t < measure s) (bound : List α) (s : σ)
    (h : measure s ≤ bound.length) : Ends step s (iterate step bound s) := by
  induction bound generalizing s with
  | nil =>
    cases hs : step s with
    | none => exact .stop hs
    | some t =>
      have hlt := hstep s t hs
      rw [List.length_nil] at h
      omega
  | cons _ bound ih =>
    rw [iterate]
    split
    · next hs => exact .stop hs
    · next t hs =>
      have hlt := hstep s t hs
      rw [List.length_cons] at h
      exact .step hs (ih t (by omega))

namespace Cursor

/-- What it is to come from one place to another by reading tokens. -/
structure Reads (c : Cursor) (tokens : List OutlineToken) (d : Cursor) : Prop where
  rest : c.rest = tokens ++ d.rest
  pos : d.pos = c.pos + tokens.length
  stop : d.stop = (tokens.getLast?.map (·.stop)).getD c.stop

/-- Whether a place can be reached by reading tokens. -/
def Ahead (c d : Cursor) : Prop := ∃ tokens, c.Reads tokens d

/-- Whether a token is read between two places. -/
def Between (c : Cursor) (t : OutlineToken) (d : Cursor) : Prop :=
  ∃ tokens, c.Reads tokens d ∧ t ∈ tokens

variable {c d e : Cursor} {t : OutlineToken} {rest : List OutlineToken}

theorem Reads.refl (c : Cursor) : c.Reads [] c := ⟨rfl, rfl, rfl⟩

theorem Reads.append {a b : List OutlineToken} (h : c.Reads a d) (h' : d.Reads b e) :
    c.Reads (a ++ b) e where
  rest := by rw [h.rest, h'.rest, List.append_assoc]
  pos := by
    rw [h'.pos, h.pos, List.length_append]
    omega
  stop := by
    rw [h'.stop, h.stop, List.getLast?_append]
    cases b.getLast? <;> rfl

theorem Reads.next (h : c.rest = t :: rest) : c.Reads [t] ⟨c.pos + 1, t.stop, rest⟩ := ⟨h, rfl, rfl⟩

theorem bump_eq (h : c.rest = t :: rest) : c.bump = ⟨c.pos + 1, t.stop, rest⟩ := by
  rw [bump, h]

theorem bump_of_rest_eq_nil (h : c.rest = []) : c.bump = c := by
  rw [bump, h]

theorem Reads.eq (h : c.Reads [] d) : c = d := by
  obtain ⟨hrest, hpos, hstop⟩ := h
  cases c
  cases d
  simp_all

/-- The first of the tokens is the next one. -/
theorem Reads.cons {tokens : List OutlineToken} (h : c.Reads (t :: tokens) d) :
    c.rest = t :: (tokens ++ d.rest) ∧ c.bump.Reads tokens d := by
  obtain ⟨hrest, hpos, hstop⟩ := h
  refine ⟨hrest, ?_⟩
  rw [bump_eq hrest]
  refine ⟨rfl, ?_, ?_⟩
  · rw [hpos, List.length_cons]
    simp only []
    omega
  · rw [hstop, List.getLast?_cons]
    cases tokens.getLast? <;> rfl

theorem Reads.split {a b : List OutlineToken} (h : c.Reads (a ++ b) d) :
    ∃ e, c.Reads a e ∧ e.Reads b d := by
  induction a generalizing c with
  | nil => exact ⟨c, .refl c, h⟩
  | cons t a ih =>
    obtain ⟨hrest, hbump⟩ := Reads.cons h
    obtain ⟨e, he, hb⟩ := ih hbump
    have hnext := Reads.next hrest
    rw [← bump_eq hrest] at hnext
    exact ⟨e, hnext.append he, hb⟩

/-! ### Places ahead -/

namespace Ahead

theorem refl (c : Cursor) : c.Ahead c := ⟨[], .refl c⟩

theorem trans (h : c.Ahead d) (h' : d.Ahead e) : c.Ahead e := by
  obtain ⟨a, ha⟩ := h
  obtain ⟨b, hb⟩ := h'
  exact ⟨a ++ b, ha.append hb⟩

theorem next (h : c.rest = t :: rest) : c.Ahead ⟨c.pos + 1, t.stop, rest⟩ := ⟨[t], .next h⟩

theorem left_le (h : c.Ahead d) : d.left ≤ c.left := by
  obtain ⟨tokens, htokens⟩ := h
  rw [left, left, htokens.rest, List.length_append]
  omega

/-- A place is known by the number of tokens read. -/
theorem eq_of_pos_eq (h : c.Ahead d) (hpos : d.pos = c.pos) : d = c := by
  obtain ⟨tokens, hrest, hcount, hstop⟩ := h
  obtain rfl : tokens = [] := List.eq_nil_of_length_eq_zero (by omega)
  cases c
  cases d
  simp_all

theorem left_lt_of_pos_ne (h : c.Ahead d) (hpos : d.pos ≠ c.pos) : d.left < c.left := by
  obtain ⟨tokens, hrest, hcount, -⟩ := h
  rw [left, left, hrest, List.length_append]
  omega

theorem eq_of_left_eq (h : c.Ahead d) (hleft : d.left = c.left) : d = c := by
  refine h.eq_of_pos_eq (Decidable.byContradiction fun hpos => ?_)
  exact absurd hleft (Nat.ne_of_lt (h.left_lt_of_pos_ne hpos))

/-- Of two places ahead, the one with more tokens read is ahead of the other. -/
theorem ahead_of_pos_le (h : c.Ahead d) (h' : c.Ahead e) (hpos : d.pos ≤ e.pos) : d.Ahead e := by
  obtain ⟨a, ha⟩ := h
  obtain ⟨b, hb⟩ := h'
  have hle : a.length ≤ b.length := by
    have := ha.pos
    have := hb.pos
    omega
  have hd : a <+: c.rest := ⟨d.rest, ha.rest.symm⟩
  have he : b <+: c.rest := ⟨e.rest, hb.rest.symm⟩
  obtain ⟨more, rfl⟩ := List.prefix_of_prefix_length_le hd he hle
  refine ⟨more, ?_, ?_, ?_⟩
  · have hrest := ha.rest.symm.trans hb.rest
    rwa [List.append_assoc, List.append_cancel_left_eq] at hrest
  · rw [hb.pos, ha.pos, List.length_append]
    omega
  · rw [hb.stop, ha.stop, List.getLast?_append]
    cases more.getLast? <;> rfl

/-- Where a move that reads something comes to is ahead of the next token. -/
theorem behind_next (h : c.Ahead d) (hlt : d.left < c.left) : c.bump.Ahead d := by
  obtain ⟨tokens, htokens⟩ := h
  cases tokens with
  | nil =>
    rw [htokens.eq] at hlt
    exact absurd hlt (Nat.lt_irrefl _)
  | cons t tokens => exact ⟨tokens, htokens.cons.2⟩

theorem left_lt (h : c.bump.Ahead d) (hc : c.rest ≠ []) : d.left < c.left :=
  Nat.lt_of_le_of_lt h.left_le (left_bump_lt hc)

end Ahead

/-! ### Tokens on the way -/

namespace Between

theorem ahead (h : c.Between t d) : c.Ahead d := by
  obtain ⟨tokens, htokens, -⟩ := h
  exact ⟨tokens, htokens⟩

theorem trans (h : c.Between t d) (h' : d.Ahead e) : c.Between t e := by
  obtain ⟨a, ha, ht⟩ := h
  obtain ⟨b, hb⟩ := h'
  exact ⟨a ++ b, ha.append hb, List.mem_append_left b ht⟩

theorem after (h : c.Ahead d) (h' : d.Between t e) : c.Between t e := by
  obtain ⟨a, ha⟩ := h
  obtain ⟨b, hb, ht⟩ := h'
  exact ⟨a ++ b, ha.append hb, List.mem_append_right a ht⟩

theorem mem_rest (h : c.Between t d) : t ∈ c.rest := by
  obtain ⟨tokens, htokens, ht⟩ := h
  rw [htokens.rest]
  exact List.mem_append_left _ ht

theorem next (h : c.rest = t :: rest) : c.Between t c.bump := by
  rw [bump_eq h]
  exact ⟨[t], .next h, List.mem_singleton_self t⟩

end Between

theorem rest_of_identifier? (h : c.identifier? = some t) : ∃ rest, c.rest = t :: rest := by
  unfold identifier? at h
  obtain ⟨hhead, -⟩ := Option.filter_eq_some_iff.1 h
  exact List.head?_eq_some_iff.1 hhead

theorem between_identifier? (h : c.identifier? = some t) : c.Between t c.bump := by
  obtain ⟨rest, hrest⟩ := rest_of_identifier? h
  exact .next hrest

theorem is_of_identifier? (h : c.identifier? = some t) : c.is .identifier := by
  obtain ⟨rest, hrest⟩ := rest_of_identifier? h
  rw [identifier?, hrest] at h
  simp_all [is, nextIs]

theorem between_label? (h : c.label? = some t) : c.Between t c.eatLabel := by
  have hsome : c.label?.isSome := by rw [h]; rfl
  rw [eatLabel, if_pos hsome]
  unfold label? at h
  split at h
  · obtain ⟨rest, hrest⟩ := rest_of_identifier? h
    cases hc : c.rest with
    | nil =>
      rw [bump_of_rest_eq_nil hc, hc] at hrest
      cases hrest
    | cons u more => exact .after ((bump_eq hc).symm ▸ .next hc) (.next hrest)
  · cases h

/-! ### Statements -/

theorem finish_of_none {tasks : List Pending} (h : c.skipStatementLeads.statementHead? = none) :
    c.finish (.statement :: tasks) = c.skipStatementLeads := by
  rw [finish]
  split
  · rfl
  · next hsome =>
    rw [h] at hsome
    cases hsome

theorem finish_of_some {tasks more : List Pending}
    (h : c.skipStatementLeads.statementHead? = some (d, more)) :
    c.finish (.statement :: tasks) = d.finish (more ++ tasks) := by
  rw [finish]
  split
  · next hnone =>
    rw [h] at hnone
    cases hnone
  · next hsome =>
    rw [h] at hsome
    cases hsome
    rfl

/-! ### Single tokens -/

namespace Ahead

theorem bump (h : c.Ahead d) : c.Ahead d.bump := by
  refine h.trans ?_
  cases hd : d.rest with
  | nil =>
    rw [bump_of_rest_eq_nil hd]
    exact .refl d
  | cons t rest =>
    rw [bump_eq hd]
    exact .next hd

theorem ite {b : Bool} (h : c.Ahead d) (h' : c.Ahead e) : c.Ahead (if b then d else e) := by
  split
  · exact h
  · exact h'

theorem eat (h : c.Ahead d) (role : Role) : c.Ahead (d.eat role) := h.bump.ite h

theorem eatText (h : c.Ahead d) (text : String) : c.Ahead (d.eatText text) := h.bump.ite h

theorem eatLabel (h : c.Ahead d) : c.Ahead d.eatLabel := h.bump.bump.ite h

/-! ### Stretches -/

theorem iterate {step : Cursor → Option Cursor} (h : c.Ahead d)
    (hstep : ∀ d e, step d = some e → d.Ahead e) (bound : List OutlineToken) :
    c.Ahead (HdlIndex.iterate step bound d) :=
  iterate_induction (P := c.Ahead) (fun d e hd he => hd.trans (hstep d e he)) bound d h

theorem skipFrom (stop : OutlineToken → Bool) (depth : Nat) {tokens : List OutlineToken}
    (hd : d.rest = tokens) : d.Ahead (Cursor.skipFrom stop depth d tokens) := by
  induction tokens generalizing depth d with
  | nil =>
    rw [Cursor.skipFrom, ← hd]
    exact .refl d
  | cons t rest ih =>
    rw [Cursor.skipFrom]
    split
    · rw [← hd]
      exact .refl d
    · exact (next hd).trans (ih _ rfl)

theorem skipUntil (h : c.Ahead d) (stop : OutlineToken → Bool) : c.Ahead (d.skipUntil stop) :=
  h.trans (skipFrom stop 0 rfl)

theorem skipClosing (depth : Nat) {tokens : List OutlineToken} (hd : d.rest = tokens) :
    d.Ahead (Cursor.skipClosing depth d tokens) := by
  induction tokens generalizing depth d with
  | nil =>
    rw [Cursor.skipClosing, ← hd]
    exact .refl d
  | cons t rest ih =>
    rw [Cursor.skipClosing]
    split
    · exact next hd
    · exact (next hd).trans (ih _ rfl)

theorem skipBalanced (h : c.Ahead d) : c.Ahead d.skipBalanced :=
  (h.trans (skipClosing 0 rfl)).ite h

theorem skipGroup (h : c.Ahead d) : c.Ahead d.skipGroup := h.skipBalanced.ite h.bump

theorem skipToSemicolon (h : c.Ahead d) : c.Ahead d.skipToSemicolon := (h.skipUntil _).eat _

theorem skipExpression (h : c.Ahead d) : c.Ahead d.skipExpression := h.skipUntil _

theorem skipDimensions (h : c.Ahead d) : c.Ahead d.skipDimensions := h.skipUntil _

theorem skipPackedDimensions (h : c.Ahead d) : c.Ahead d.skipPackedDimensions := h.skipUntil _

theorem skipWhile (h : c.Ahead d) (test : OutlineToken → Bool) : c.Ahead (d.skipWhile test) := by
  refine h.iterate ?_ _
  intro d e he
  split at he
  · cases he
    exact (refl d).bump
  · cases he

theorem skipBlock (h : c.Ahead d) (opening closing : Role) :
    c.Ahead (d.skipBlock opening closing) := by
  have skipBlockFrom (depth : Nat) (tokens : List OutlineToken) (d : Cursor)
      (hd : d.rest = tokens) : d.Ahead (skipBlockFrom opening closing depth d tokens) := by
    induction tokens generalizing depth d with
    | nil =>
      rw [Cursor.skipBlockFrom, ← hd]
      exact .refl d
    | cons t rest ih =>
      rw [Cursor.skipBlockFrom]
      split
      · exact next hd
      · exact (next hd).trans (ih _ _ rfl)
  exact h.trans (skipBlockFrom 0 d.rest d rfl)

theorem skipPast (h : c.Ahead d) (text : String) : c.Ahead (d.skipPast text) :=
  (h.skipWhile _).bump

/-! ### Declared names and types -/

theorem skipPackages (h : c.Ahead d) : c.Ahead d.skipPackages := by
  refine h.iterate ?_ _
  intro d e he
  split at he
  · cases he
    exact (refl d).bump.eat _
  · cases he

theorem skipModport (h : c.Ahead d) : c.Ahead d.skipModport := h.bump.bump.ite h

theorem skipTypePath (h : c.Ahead d) (bound : List OutlineToken) :
    c.Ahead (d.skipTypePath bound) := by
  induction bound generalizing d with
  | nil => exact h
  | cons _ bound ih =>
    rw [Cursor.skipTypePath]
    have hname := h.skipPackages.bump
    exact ((ih (hname.bump.skipBalanced.ite hname).bump).ite
      (hname.bump.skipBalanced.ite hname).skipModport).ite h.skipPackages

theorem skipTypeReference (h : c.Ahead d) : c.Ahead d.skipTypeReference := h.skipTypePath _

theorem skipDeclarator (h : c.Ahead d) : c.Ahead d.skipDeclarator :=
  h.skipDimensions.bump.skipExpression.ite h.skipDimensions

theorem skipTypeLead (h : c.Ahead d) : c.Ahead d.skipTypeLead := by
  have hvar := h.eatText "var"
  exact ((hvar.bump.skipBalanced.ite hvar.bump).ite hvar).skipWhile _

theorem skipTypeName (h : c.Ahead d) : c.Ahead d.skipTypeName := by
  unfold Cursor.skipTypeName
  exact h.bump.ite (h.skipTypeReference.ite ((h.skipTypeReference.ite h).ite
    ((h.bump.bump.bump.ite (h.bump.skipTypeReference.ite h.bump)).ite
      (h.bump.skipBalanced.ite h))))

/-! ### Statements -/

theorem statementLead? (h : d.statementLead? = some e) : d.Ahead e := by
  unfold Cursor.statementLead? at h
  split at h
  · cases h
  · split at h
    · cases h
      exact (refl d).bump.bump
    · split at h
      · cases h
        exact (refl d).bump.skipGroup
      · split at h
        · cases h
          exact (refl d).bump
        · cases h

theorem controlHead (h : c.Ahead d) (word : String) : c.Ahead (d.controlHead word).1 := by
  unfold Cursor.controlHead
  split
  · exact h.skipBalanced
  · exact h.skipBalanced
  · exact h.skipBalanced
  · exact h.skipBalanced
  · exact h.skipBalanced
  · exact h
  · exact h
  · split
    · exact h.bump.eat _
    · exact h.skipBalanced
  · exact h.skipBalanced
  · exact h.skipToSemicolon

theorem assertionHead (h : c.Ahead d) : c.Ahead d.assertionHead.1 :=
  (h.bump.ite (h.bump.bump.ite h)).skipBalanced

theorem statementHead? {tasks : List Pending} (h : d.statementHead? = some (e, tasks)) :
    d.Ahead e := by
  unfold Cursor.statementHead? at h
  split at h
  · cases h
  · split at h
    · cases h
    · have h := congrArg Prod.fst (Option.some.inj h)
      subst h
      split
      · exact (refl d).bump
      · exact ((refl d).skipBlock _ _).eatLabel
      · exact ((refl d).skipBlock _ _).eatLabel
      · exact (refl d).skipBlock _ _
      · exact (refl d).bump.assertionHead
      · exact (refl d).bump.controlHead _
      · exact (refl d).skipToSemicolon

theorem skipStatementLeads (h : c.Ahead d) : c.Ahead d.skipStatementLeads :=
  h.iterate (fun _ _ => statementLead?) _

theorem finish (h : c.Ahead d) (tasks : List Pending) : c.Ahead (d.finish tasks) := by
  induction d, tasks using Cursor.finish.induct with
  | case1 d =>
    rw [Cursor.finish]
    exact h
  | case2 d tasks helse ih =>
    rw [Cursor.finish, if_pos helse]
    exact ih h.bump
  | case3 d tasks helse ih =>
    rw [Cursor.finish, if_neg helse]
    exact ih h
  | case4 d tasks hwhile ih =>
    rw [Cursor.finish, if_pos hwhile]
    exact ih (h.bump.skipBalanced.eat _)
  | case5 d tasks hwhile ih =>
    rw [Cursor.finish, if_neg hwhile]
    exact ih h
  | case6 d tasks hnone =>
    rw [finish_of_none hnone]
    exact h.skipStatementLeads
  | case7 d tasks next more hsome ih =>
    rw [finish_of_some hsome]
    exact ih (h.skipStatementLeads.trans (statementHead? hsome))

theorem skipStatement (h : c.Ahead d) : c.Ahead d.skipStatement := h.finish _

end Ahead

/-! ### Moves that read something -/

/-- A token that does not stop the move is read. -/
theorem ahead_skipUntil {stop : OutlineToken → Bool} (hc : c.rest = t :: rest)
    (ht : stop t = false) : c.bump.Ahead (c.skipUntil stop) :=
  ((Ahead.refl c).skipUntil stop).behind_next (left_skipUntil_lt hc ht)

theorem ahead_skipToSemicolon (hc : c.rest = t :: rest) (ht : t.role ≠ .semicolon)
    (hend : t.isRegionEnd = false) : c.bump.Ahead c.skipToSemicolon :=
  (Ahead.refl c).skipToSemicolon.behind_next (left_skipToSemicolon_lt hc ht hend)

/-- A statement in front of a token that does not end a region has at least that token. -/
theorem ahead_skipStatement (hc : c.rest = t :: rest) (hend : t.isRegionEnd = false) :
    c.bump.Ahead c.skipStatement := by
  refine (Ahead.refl c).skipStatement.behind_next ?_
  have hleads := c.left_skipStatementLeads_le
  rcases Nat.lt_or_eq_of_le hleads with hlt | heq
  · have hfinish : c.skipStatementLeads.Ahead c.skipStatement := by
      rw [skipStatement, finish]
      split
      · exact .refl _
      · next hhead => exact (Ahead.statementHead? hhead).finish _
    exact Nat.lt_of_le_of_lt hfinish.left_le hlt
  · -- Nothing leads the statement, so its head starts with the token.
    have hsame : c.skipStatementLeads = c := (Ahead.refl c).skipStatementLeads.eq_of_left_eq heq
    have hhead : c.statementHead?.isSome := by
      rw [statementHead?, hc]
      dsimp only
      rw [hend]
      rfl
    obtain ⟨⟨next, more⟩, hsome⟩ := Option.isSome_iff_exists.1 hhead
    rw [skipStatement, finish_of_some (hsame.symm ▸ hsome)]
    exact Nat.lt_of_le_of_lt ((Ahead.refl next).finish _).left_le (statementHead?_decreases hsome).1

/-- The last token of a kind that a move passes outside brackets is one that it reads. -/
theorem between_lastOutside {stop mark : OutlineToken → Bool}
    (h : lastOutside stop mark 0 none c.rest = some t) : c.Between t (c.skipUntil stop) := by
  have hfound (tokens : List OutlineToken) (depth : Nat) (found : Option OutlineToken) (c : Cursor)
      (hc : c.rest = tokens) (h : lastOutside stop mark depth found tokens = some t) :
      found = some t ∨ c.Between t (skipFrom stop depth c tokens) := by
    induction tokens generalizing depth found c with
    | nil => exact .inl h
    | cons u rest ih =>
      rw [lastOutside] at h
      rw [skipFrom]
      split at h
      · exact .inl h
      · next hgo =>
        rw [if_neg hgo]
        have hahead : Ahead ⟨c.pos + 1, u.stop, rest⟩
            (skipFrom stop (u.nest depth) ⟨c.pos + 1, u.stop, rest⟩ rest) := .skipFrom _ _ rfl
        rcases ih _ _ ⟨c.pos + 1, u.stop, rest⟩ rfl h with hfound | hbetween
        · split at hfound
          · cases hfound
            exact .inr ((bump_eq hc ▸ Between.next hc).trans hahead)
          · exact .inl hfound
        · exact .inr (.after (.next hc) hbetween)
  rcases hfound c.rest 0 none c rfl h with hnone | hbetween
  · cases hnone
  · exact hbetween

end Cursor

end HdlIndex
