import HdlIndex.Proofs.Outline.Moves

/-! Balanced tokens. Moves over brackets and over blocks count what opens and what closes. Balanced
tokens bring the count back to where it was, so a move goes on behind them as if they were not there.
Main statement: a move that counts passes over balanced tokens, whatever is open around them. -/

namespace HdlIndex

namespace OutlineToken

/-- A token in a role. -/
abbrev InRole (role : Role) := { t : OutlineToken // t.role = role }

/-- A token in a role, with one of the given texts. -/
abbrev Word (role : Role) (texts : List String) :=
  { t : OutlineToken // t.role = role ∧ t.text ∈ texts }

/-- The number of open groups behind the token, for groups from a token that `opens` to one that
`closes`. -/
def nestBy (opens closes : OutlineToken → Bool) (depth : Nat) (t : OutlineToken) : Nat :=
  if opens t then depth + 1 else if closes t then depth - 1 else depth

variable {t : OutlineToken} {opens closes : OutlineToken → Bool} {depth : Nat}

theorem nestBy_of_opens (h : opens t = true) : t.nestBy opens closes depth = depth + 1 := by
  rw [nestBy, if_pos h]

theorem nestBy_of_closes (h : closes t = true) (hopens : opens t = false) :
    t.nestBy opens closes (depth + 1) = depth := by
  simp [nestBy, h, hopens]

theorem nestBy_of_neither (hopens : opens t = false) (hcloses : closes t = false) :
    t.nestBy opens closes depth = depth := by
  simp [nestBy, hopens, hcloses]

theorem nestBlock_eq_nestBy (opening closing : Role) :
    t.nestBlock opening closing depth = t.nestBy (·.role == opening) (·.role == closing) depth := by
  simp [nestBlock, nestBy]

theorem isClose_of_isOpen (h : t.isOpen = true) : t.isClose = false := by
  unfold isOpen at h
  unfold isClose
  split at h <;> simp_all

theorem isOpen_of_isClose (h : t.isClose = true) : t.isOpen = false := by
  cases hopen : t.isOpen with
  | false => rfl
  | true => rw [isClose_of_isOpen hopen] at h; cases h

/-! ### Balanced tokens -/

/-- Tokens in which each token that opens a group has one behind it that closes the group, and none
closes a group that was not opened. The tokens outside of groups, and those that open the outermost
groups, are as `outside` says. -/
inductive Balanced (opens closes : OutlineToken → Bool) :
    (outside : OutlineToken → Prop) → List OutlineToken → Prop
  | nil {outside : OutlineToken → Prop} : Balanced opens closes outside []
  | token {outside : OutlineToken → Prop} {t : OutlineToken} {rest : List OutlineToken}
      (hopens : opens t = false) (hcloses : closes t = false) (ht : outside t)
      (hrest : Balanced opens closes outside rest) : Balanced opens closes outside (t :: rest)
  | group {outside : OutlineToken → Prop} {opener closer : OutlineToken}
      {inner rest : List OutlineToken} (hopener : opens opener = true) (ht : outside opener)
      (hcloser : closes closer = true) (hclosing : opens closer = false)
      (hinner : Balanced opens closes (fun _ => True) inner)
      (hrest : Balanced opens closes outside rest) :
      Balanced opens closes outside (opener :: (inner ++ closer :: rest))

/-- Tokens with balanced brackets. Brackets of all kinds count alike. -/
abbrev BracketBalanced (outside : OutlineToken → Prop) (tokens : List OutlineToken) : Prop :=
  Balanced isOpen isClose outside tokens

/-- Tokens in which the blocks between two roles are balanced. -/
abbrev BlockBalanced (opening closing : Role) (tokens : List OutlineToken) : Prop :=
  Balanced (·.role == opening) (·.role == closing) (fun _ => True) tokens

namespace Balanced

variable {outside : OutlineToken → Prop} {tokens more : List OutlineToken}

theorem append (h : Balanced opens closes outside tokens)
    (hmore : Balanced opens closes outside more) :
    Balanced opens closes outside (tokens ++ more) := by
  induction h with
  | nil => exact hmore
  | token hopens hcloses ht _ ih => exact .token hopens hcloses ht (ih hmore)
  | group hopener ht hcloser hclosing hinner _ _ ih =>
    rw [List.cons_append, List.append_assoc, List.cons_append]
    exact .group hopener ht hcloser hclosing hinner (ih hmore)

/-- Tokens that neither open nor close anything are balanced. -/
theorem of_flat (h : ∀ t ∈ tokens, opens t = false ∧ closes t = false ∧ outside t) :
    Balanced opens closes outside tokens := by
  induction tokens with
  | nil => exact .nil
  | cons t rest ih =>
    obtain ⟨⟨hopens, hcloses, ht⟩, hrest⟩ := List.forall_mem_cons.1 h
    exact .token hopens hcloses ht (ih hrest)

/-- A token that is no keyword of a kind of blocks does not count for them. -/
theorem uncounted {opening closing : Role} (hopening : t.role ≠ opening) (hclosing : t.role ≠ closing)
    (h : BlockBalanced opening closing tokens) : BlockBalanced opening closing (t :: tokens) :=
  .token (by simp [hopening]) (by simp [hclosing]) trivial h

end Balanced

end OutlineToken

namespace Cursor

open OutlineToken (Balanced BracketBalanced BlockBalanced)

variable {c d : Cursor} {t : OutlineToken} {tokens more rest : List OutlineToken}

/-! ### Moves that count -/

/-- Whether a move, as long as something is open, reads the next token and counts it. -/
structure Counts (opens closes : OutlineToken → Bool) (move : Nat → Cursor → Cursor) : Prop where
  step : ∀ {depth : Nat} {c : Cursor} {t : OutlineToken} {rest : List OutlineToken},
    c.rest = t :: rest → depth ≠ 0 → t.nestBy opens closes depth ≠ 0 →
      move depth c = move (t.nestBy opens closes depth) c.bump

theorem counts_skipFrom (stop : OutlineToken → Bool) :
    Counts OutlineToken.isOpen OutlineToken.isClose fun depth c => skipFrom stop depth c c.rest where
  step := by
    intro depth c t rest hrest hdepth _
    simp only [hrest, bump_eq hrest]
    rw [skipFrom, if_neg (fun h => hdepth h.1)]
    rfl

theorem counts_skipClosing :
    Counts OutlineToken.isOpen OutlineToken.isClose fun depth c => skipClosing depth c c.rest where
  step := by
    intro depth c t rest hrest _ hopen
    simp only [hrest, bump_eq hrest]
    rw [skipClosing]
    exact if_neg hopen

theorem counts_skipBlockFrom (opening closing : Role) :
    Counts (·.role == opening) (·.role == closing) fun depth c =>
      skipBlockFrom opening closing depth c c.rest where
  step := by
    intro depth c t rest hrest _ hopen
    rw [← OutlineToken.nestBlock_eq_nestBy] at hopen ⊢
    simp only [hrest, bump_eq hrest]
    rw [skipBlockFrom]
    exact if_neg hopen

namespace Counts

variable {opens closes : OutlineToken → Bool} {move : Nat → Cursor → Cursor} {depth : Nat}

theorem opening (hmove : Counts opens closes move) (hrest : c.rest = t :: rest)
    (hopens : opens t = true) (hdepth : depth ≠ 0) : move depth c = move (depth + 1) c.bump := by
  have hnest : t.nestBy opens closes depth = depth + 1 := OutlineToken.nestBy_of_opens hopens
  rw [hmove.step hrest hdepth (by rw [hnest]; omega), hnest]

theorem closing (hmove : Counts opens closes move) (hrest : c.rest = t :: rest)
    (hcloses : closes t = true) (hopens : opens t = false) (hdepth : depth ≠ 0) :
    move (depth + 1) c = move depth c.bump := by
  have hnest : t.nestBy opens closes (depth + 1) = depth :=
    OutlineToken.nestBy_of_closes hcloses hopens
  rw [hmove.step hrest (Nat.succ_ne_zero depth) (by rwa [hnest]), hnest]

theorem neither (hmove : Counts opens closes move) (hrest : c.rest = t :: rest)
    (hopens : opens t = false) (hcloses : closes t = false) (hdepth : depth ≠ 0) :
    move depth c = move depth c.bump := by
  have hnest : t.nestBy opens closes depth = depth := OutlineToken.nestBy_of_neither hopens hcloses
  rw [hmove.step hrest hdepth (by rwa [hnest]), hnest]

/-- Inside a group, a move that counts passes over balanced tokens. -/
theorem pass (hmove : Counts opens closes move) {outside : OutlineToken → Prop}
    (h : Balanced opens closes outside tokens) (hdepth : depth ≠ 0) (hreads : c.Reads tokens d) :
    move depth c = move depth d := by
  induction h generalizing depth c d with
  | nil => rw [hreads.eq]
  | token hopens hcloses _ _ ih =>
    obtain ⟨hrest, hbump⟩ := hreads.cons
    rw [hmove.neither hrest hopens hcloses hdepth]
    exact ih hdepth hbump
  | group hopener _ hcloser hclosing _ _ ihinner ihrest =>
    obtain ⟨hrest, hbump⟩ := hreads.cons
    obtain ⟨e, hinner, hbehind⟩ := hbump.split
    obtain ⟨hrest', hbump'⟩ := hbehind.cons
    calc move depth c
      _ = move (depth + 1) c.bump := hmove.opening hrest hopener hdepth
      _ = move (depth + 1) e := ihinner (Nat.succ_ne_zero depth) hinner
      _ = move depth e.bump := hmove.closing hrest' hcloser hclosing hdepth
      _ = move depth d := ihrest hdepth hbump'

end Counts

/-! ### Groups -/

/-- A move over brackets ends behind the bracket that closes the first one. -/
theorem skipBalanced_of_balanced {opener closer : OutlineToken} {inner : List OutlineToken}
    (hopener : opener.isOpen = true) (hcloser : closer.isClose = true)
    (hinner : BracketBalanced (fun _ => True) inner)
    (h : c.Reads (opener :: (inner ++ [closer])) d) : c.skipBalanced = d := by
  obtain ⟨hrest, hbump⟩ := h.cons
  obtain ⟨e, he, hend⟩ := hbump.split
  obtain ⟨hrest', hbump'⟩ := hend.cons
  have hup : opener.nest 0 = 1 := OutlineToken.nestBy_of_opens hopener
  have hdown : closer.nest 1 = 0 :=
    OutlineToken.nestBy_of_closes hcloser (OutlineToken.isOpen_of_isClose hcloser)
  calc c.skipBalanced
    _ = skipClosing 0 c c.rest := by rw [skipBalanced, if_pos (by simp [nextIs, hrest, hopener])]
    _ = skipClosing 1 c.bump c.bump.rest := by
      rw [hrest, skipClosing, hup, if_neg Nat.one_ne_zero, bump_eq hrest]
    _ = skipClosing 1 e e.rest := counts_skipClosing.pass hinner Nat.one_ne_zero he
    _ = e.bump := by rw [hrest', skipClosing, hdown, if_pos rfl, bump_eq hrest']
    _ = d := hbump'.eq

/-- A move over a block ends behind the keyword that closes it. -/
theorem skipBlock_of_balanced {opening closing : Role} (hroles : opening ≠ closing)
    {opener closer : OutlineToken} {inner : List OutlineToken} (hopener : opener.role = opening)
    (hcloser : closer.role = closing) (hinner : BlockBalanced opening closing inner)
    (h : c.Reads (opener :: (inner ++ [closer])) d) : c.skipBlock opening closing = d := by
  obtain ⟨hrest, hbump⟩ := h.cons
  obtain ⟨e, he, hend⟩ := hbump.split
  obtain ⟨hrest', hbump'⟩ := hend.cons
  have hup : opener.nestBlock opening closing 0 = 1 := by simp [OutlineToken.nestBlock, hopener]
  have hdown : closer.nestBlock opening closing 1 = 0 := by
    simp [OutlineToken.nestBlock, hcloser, hroles.symm]
  calc c.skipBlock opening closing
    _ = skipBlockFrom opening closing 1 c.bump c.bump.rest := by
      rw [skipBlock, hrest, skipBlockFrom]
      simp only [hup, if_neg Nat.one_ne_zero, bump_eq hrest]
    _ = skipBlockFrom opening closing 1 e e.rest :=
      (counts_skipBlockFrom opening closing).pass hinner Nat.one_ne_zero he
    _ = e.bump := by
      rw [hrest', skipBlockFrom]
      simp only [hdown, if_true, bump_eq hrest']
    _ = d := hbump'.eq

/-! ### Stretches outside of brackets -/

theorem skipUntil_of_stop {stop : OutlineToken → Bool} (hrest : c.rest = t :: rest)
    (ht : stop t = true) : c.skipUntil stop = c := by
  rw [skipUntil, hrest, skipFrom, if_pos ⟨rfl, ht⟩, ← hrest]

/-- A move to a token that stops it passes over balanced tokens if none of those outside of brackets
stops it. -/
theorem skipUntil_of_balanced {outside : OutlineToken → Prop} {stop : OutlineToken → Bool}
    (h : BracketBalanced outside tokens)
    (hstop : ∀ t ∈ tokens, t.isClose = false → outside t → stop t = false)
    (hreads : c.Reads tokens d) : c.skipUntil stop = d.skipUntil stop := by
  have hstep {c : Cursor} {t : OutlineToken} {rest : List OutlineToken} (hrest : c.rest = t :: rest)
      (ht : stop t = false) :
      c.skipUntil stop = skipFrom stop (t.nest 0) c.bump c.bump.rest := by
    rw [skipUntil, hrest, skipFrom, if_neg (by simp [ht]), bump_eq hrest]
  induction h generalizing c with
  | nil => rw [hreads.eq]
  | token hopens hcloses ht _ ih =>
    obtain ⟨hfirst, hothers⟩ := List.forall_mem_cons.1 hstop
    obtain ⟨hrest, hbump⟩ := hreads.cons
    have hnest : OutlineToken.nest 0 _ = 0 := OutlineToken.nestBy_of_neither hopens hcloses
    rw [hstep hrest (hfirst hcloses ht), hnest]
    exact ih hothers hbump
  | @group _ opener closer inner rest hopener ht hcloser hclosing hinner _ _ ih =>
    obtain ⟨hfirst, hothers⟩ := List.forall_mem_cons.1 hstop
    obtain ⟨hrest, hbump⟩ := hreads.cons
    obtain ⟨e, he, hbehind⟩ := hbump.split
    obtain ⟨hrest', hbump'⟩ := hbehind.cons
    have hup : opener.nest 0 = 1 := OutlineToken.nestBy_of_opens hopener
    have hdown : closer.nest 1 = 0 := OutlineToken.nestBy_of_closes hcloser hclosing
    calc c.skipUntil stop
      _ = skipFrom stop 1 c.bump c.bump.rest := by
        rw [hstep hrest (hfirst (OutlineToken.isClose_of_isOpen hopener) ht), hup]
      _ = skipFrom stop 1 e e.rest := (counts_skipFrom stop).pass hinner Nat.one_ne_zero he
      _ = skipFrom stop 0 e.bump e.bump.rest := by
        rw [hrest', skipFrom, if_neg (by simp), hdown, bump_eq hrest']
      _ = d.skipUntil stop :=
        ih (fun t h => hothers t (List.mem_append_right _ (List.mem_cons_of_mem _ h))) hbump'

/-- A move to a semicolon ends behind the first one outside of brackets. -/
theorem skipToSemicolon_of_balanced {semicolon : OutlineToken}
    (h : BracketBalanced (fun t => t.role ≠ .semicolon) tokens)
    (hregion : ∀ t ∈ tokens, t.isRegionEnd = false)
    (hsemicolon : semicolon.role = .semicolon) (hreads : c.Reads (tokens ++ [semicolon]) d) :
    c.skipToSemicolon = d := by
  obtain ⟨e, he, hend⟩ := hreads.split
  obtain ⟨hrest, hbump⟩ := hend.cons
  have hstop : ∀ t ∈ tokens, t.isClose = false → t.role ≠ .semicolon →
      (t.role == .semicolon || t.isRegionEnd) = false := by
    intro t ht _ hrole
    simp [hrole, hregion t ht]
  rw [skipToSemicolon, skipUntil_of_balanced h hstop he,
    skipUntil_of_stop hrest (by simp [hsemicolon]), eat,
    if_pos (by simp [is, nextIs, hrest, hsemicolon])]
  exact hbump.eq

end Cursor

end HdlIndex
