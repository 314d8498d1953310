import HdlIndex.Proofs.Outline.Bodies

/-! Moves of a cursor in a body. The name of an alias is looked up before the body in front of it is
read: the look ahead passes from the opening bracket to the one that closes it, and the dimensions
behind. A move inside the body counts the same brackets, so it has no more of them open than the look
ahead has. Main statement: a move that starts in the body, behind it in front of the name, or behind the
name, stops at such a place again, unless a token in front of the name misleads it. -/

namespace HdlIndex

namespace OutlineToken

variable {t : OutlineToken} {m n : Nat}

theorem isRegionEnd_of_isOpen (h : t.isOpen = true) : t.isRegionEnd = false := by
  unfold isOpen at h
  unfold isRegionEnd
  split at h <;> simp_all

theorem nest_le_nest (h : m ≤ n) : t.nest m ≤ t.nest n := by
  unfold nest
  split
  · omega
  · split <;> omega

theorem nest_eq_zero (h : t.isOpen = false) : t.nest 0 = 0 := by
  unfold nest
  rw [if_neg (by simp [h])]
  split <;> rfl

/-- Brackets of a body and brackets of a move are counted alike, so a bound on the brackets that
only the body has open stays. -/
theorem nest_le_add_nest {level depth : Nat} (h : n ≤ level + depth) :
    t.nest n ≤ level + t.nest depth := by
  unfold nest
  split
  · omega
  · split <;> omega

end OutlineToken

namespace Cursor

/-- Where a look ahead over a body has come to: from its opening bracket to a name. -/
structure LooksPast (body place : Cursor) : Prop where
  opens : body.nextIs (·.isOpen) = true
  eq : body.skipBalanced.skipDimensions = place
  name : place.is .identifier = true
  clear : ∀ t, body.Between t place → t.misleads = false

/-- Where a place stands that a reading of the body has come to: in the body, with at most `level`
brackets open besides those of the current move, of which there are `depth`; behind the body and in
front of the name; or behind the name. -/
structure Stage (body place : Cursor) (level depth : Nat) (c : Cursor) : Prop where
  ahead : body.Ahead c
  stands : (∃ n ≠ 0, n ≤ level + depth ∧ skipClosing n c c.rest = body.skipBalanced) ∨
    (∃ n ≤ depth, skipFrom (·.role != .bracketOpen) n c c.rest = place) ∨ place.pos < c.pos

namespace LooksPast

variable {body place c d : Cursor} {t : OutlineToken} {rest : List OutlineToken}

theorem ahead (h : LooksPast body place) : body.Ahead place :=
  h.eq ▸ (Ahead.refl body).skipBalanced.skipDimensions

theorem skipFrom_eq (h : LooksPast body place) :
    skipFrom (·.role != .bracketOpen) 0 body.skipBalanced body.skipBalanced.rest = place := h.eq

theorem rest_ne_nil (h : LooksPast body place) : place.rest ≠ [] := rest_ne_nil_of_is h.name

/-- The name is read on the way to a place behind it. -/
theorem between_of_pos_lt (h : LooksPast body place) (hd : body.Ahead d) (hpos : place.pos < d.pos)
    (ht : place.identifier? = some t) : place.Between t d := by
  have hplace : place.Ahead d := h.ahead.ahead_of_pos_le hd (Nat.le_of_lt hpos)
  have hname := between_identifier? ht
  exact hname.trans (hplace.behind_next (hplace.left_lt_of_pos_ne (Nat.ne_of_gt hpos)))

end LooksPast

/-! ### One token -/

namespace Stage

variable {body place c d : Cursor} {level depth : Nat} {t : OutlineToken}
  {rest : List OutlineToken}

theorem past (hc : body.Ahead c) (h : place.pos < c.pos) : Stage body place level depth c :=
  ⟨hc, .inr (.inr h)⟩

section Looks

variable (hl : LooksPast body place)
include hl

/-- To read a token is to count it, for the body and for the move. -/
theorem step (h : Stage body place level depth c) (hc : c.rest = t :: rest) :
    Stage body place level (t.nest depth) c.bump := by
  refine ⟨h.ahead.bump, ?_⟩
  rw [bump_eq hc]
  rcases h.stands with ⟨n, -, hn, hclosing⟩ | ⟨n, hn, hdimensions⟩ | hpast
  · rw [hc, skipClosing] at hclosing
    split at hclosing
    · refine .inr (.inl ⟨0, Nat.zero_le _, ?_⟩)
      have hplace := hl.skipFrom_eq
      rw [← hclosing] at hplace
      exact hplace
    · next hopen => exact .inl ⟨t.nest n, hopen, OutlineToken.nest_le_add_nest hn, hclosing⟩
  · rw [hc, skipFrom] at hdimensions
    split at hdimensions
    · refine .inr (.inr ?_)
      rw [← hdimensions]
      exact Nat.lt_succ_self _
    · exact .inr (.inl ⟨t.nest n, OutlineToken.nest_le_nest hn, hdimensions⟩)
  · exact .inr (.inr (Nat.lt_succ_of_lt hpast))

/-- Behind the last token is behind the name. -/
theorem pos_lt_of_rest_eq_nil (h : Stage body place level depth c) (hc : c.rest = []) :
    place.pos < c.pos := by
  have hstop (d : Cursor) (hd : d.rest = []) :
      skipFrom (·.role != .bracketOpen) 0 d d.rest ≠ place := by
    intro heq
    rw [hd, skipFrom] at heq
    exact hl.rest_ne_nil (heq ▸ rfl)
  rcases h.stands with ⟨n, -, -, hclosing⟩ | ⟨n, -, hdimensions⟩ | hpast
  · have hempty : body.skipBalanced.rest = [] := by
      rw [← hclosing, hc, skipClosing]
    exact absurd hl.skipFrom_eq (hstop _ hempty)
  · rw [hc, skipFrom] at hdimensions
    exact absurd (hdimensions ▸ rfl) hl.rest_ne_nil
  · exact hpast

/-- No token up to the name misleads. -/
theorem misleads_or_pos_lt (h : Stage body place level depth c) (hc : c.rest = t :: rest) :
    t.misleads = false ∨ place.pos < c.pos := by
  have hname (hplace : c = place) : t.misleads = false := by
    obtain ⟨u, more, hu, hrole⟩ := exists_next_of_is hl.name
    obtain ⟨rfl, -⟩ := List.cons.inj ((hplace ▸ hc).symm.trans hu)
    simp [OutlineToken.misleads, OutlineToken.isRegionEnd, OutlineToken.isOpen, hrole]
  have hahead (hplace : c.Ahead place) : t.misleads = false := by
    rcases Nat.eq_or_lt_of_le hplace.left_le with heq | hlt
    · exact hname (hplace.eq_of_left_eq heq).symm
    · exact hl.clear t (.after h.ahead ((Between.next hc).trans (hplace.behind_next hlt)))
  rcases h.stands with ⟨n, -, -, hclosing⟩ | ⟨n, -, hdimensions⟩ | hpast
  · refine .inl (hahead ?_)
    rw [← hl.eq]
    exact (hclosing ▸ Ahead.skipClosing n rfl : c.Ahead body.skipBalanced).skipDimensions
  · refine .inl (hahead ?_)
    rw [← hdimensions]
    exact .skipFrom _ n rfl
  · exact .inr hpast

/-- A token that opens no bracket leaves a move with none open. -/
theorem bump (h : Stage body place level 0 c) (hc : c.nextIs (·.isOpen) = false) :
    Stage body place level 0 c.bump := by
  cases hrest : c.rest with
  | nil =>
    rw [bump_of_rest_eq_nil hrest]
    exact h
  | cons t rest =>
    have hnest := OutlineToken.nest_eq_zero (t := t) (by simpa [nextIs, hrest] using hc)
    exact hnest ▸ h.step hl hrest

theorem bump_of_is (h : Stage body place level 0 c) {role : Role} (hc : c.is role = true)
    (hrole : (OutlineToken.mk "" role 0 0).isOpen = false) :
    Stage body place level 0 c.bump := by
  refine h.bump hl ?_
  obtain ⟨t, rest, hrest, rfl⟩ := exists_next_of_is hc
  rw [nextIs, hrest]
  exact hrole

theorem bump_of_isText (h : Stage body place level 0 c) {text : String}
    (hc : c.isText text = true) (htext : ["var", "interface", "type"].contains text = true) :
    Stage body place level 0 c.bump := by
  cases hrest : c.rest with
  | nil => simp [isText, nextIs, hrest] at hc
  | cons t rest =>
    have ht : t.text = text := by simpa [isText, nextIs, hrest] using hc
    rcases h.misleads_or_pos_lt hl hrest with hclear | hpast
    · refine h.bump hl ?_
      rw [OutlineToken.misleads, ht, htext, Bool.and_true, Bool.or_eq_false_iff] at hclear
      simp [nextIs, hrest, hclear.2]
    · refine past h.ahead.bump ?_
      rw [bump_eq hrest]
      exact Nat.lt_succ_of_lt hpast

theorem eat (h : Stage body place level 0 c) {role : Role}
    (hrole : (OutlineToken.mk "" role 0 0).isOpen = false) :
    Stage body place level 0 (c.eat role) := by
  unfold Cursor.eat
  split
  · next hc => exact h.bump_of_is hl hc hrole
  · exact h

/-! ### Stretches -/

theorem skipFrom (h : Stage body place level depth c) (stop : OutlineToken → Bool) :
    Stage body place level 0 (Cursor.skipFrom stop depth c c.rest) := by
  generalize hc : c.rest = tokens
  induction tokens generalizing depth c with
  | nil =>
    have hpast := h.pos_lt_of_rest_eq_nil hl hc
    rw [Cursor.skipFrom, ← hc]
    exact past h.ahead hpast
  | cons t rest ih =>
    rw [Cursor.skipFrom]
    split
    · next hstop =>
      rw [← hc, ← hstop.1]
      exact h
    · have hstep := h.step hl hc
      rw [bump_eq hc] at hstep
      exact ih hstep rfl

theorem skipUntil (h : Stage body place level 0 c) (stop : OutlineToken → Bool) :
    Stage body place level 0 (c.skipUntil stop) := h.skipFrom hl stop

theorem skipClosing (h : Stage body place level depth c) :
    Stage body place level 0 (Cursor.skipClosing depth c c.rest) := by
  generalize hc : c.rest = tokens
  induction tokens generalizing depth c with
  | nil =>
    have hpast := h.pos_lt_of_rest_eq_nil hl hc
    rw [Cursor.skipClosing, ← hc]
    exact past h.ahead hpast
  | cons t rest ih =>
    have hstep := h.step hl hc
    rw [bump_eq hc] at hstep
    rw [Cursor.skipClosing]
    split
    · next hclosed => exact hclosed ▸ hstep
    · exact ih hstep rfl

theorem skipBalanced (h : Stage body place level 0 c) :
    Stage body place level 0 c.skipBalanced := by
  unfold Cursor.skipBalanced
  split
  · exact h.skipClosing hl
  · exact h

theorem skipToSemicolon (h : Stage body place level 0 c) :
    Stage body place level 0 c.skipToSemicolon := (h.skipUntil hl _).eat hl rfl

theorem skipWhile (h : Stage body place level 0 c) {test : OutlineToken → Bool}
    (htest : ∀ t, test t = true → t.isOpen = false) :
    Stage body place level 0 (c.skipWhile test) := by
  refine iterate_induction (P := Stage body place level 0) ?_ _ c h
  intro d e hd he
  split at he
  · next hnext =>
    cases he
    refine hd.bump hl ?_
    cases hrest : d.rest with
    | nil => simp [nextIs, hrest] at hnext
    | cons t rest => simp [nextIs, hrest, htest t (by simpa [nextIs, hrest] using hnext)]
  · cases he

/-! ### Declared names and types -/

theorem skipDeclarator (h : Stage body place level 0 c) :
    Stage body place level 0 c.skipDeclarator := by
  have hdimensions := h.skipUntil hl (·.role != .bracketOpen)
  unfold Cursor.skipDeclarator
  dsimp only
  split
  · next heq => exact (hdimensions.bump_of_is hl heq rfl).skipUntil hl _
  · exact hdimensions

theorem skipPackages (h : Stage body place level 0 c) :
    Stage body place level 0 c.skipPackages := by
  refine iterate_induction (P := Stage body place level 0) ?_ _ c h
  intro d e hd he
  split at he
  · next hpackage =>
    cases he
    exact (hd.bump_of_is hl hpackage rfl).eat hl rfl
  · cases he

omit hl in
theorem is_bump_of_nthIs {role : Role} (h : c.nthIs 1 role = true) : c.bump.is role = true := by
  rcases hc : c.rest with _ | ⟨t, _ | ⟨u, rest⟩⟩
  · simp [nthIs, hc] at h
  · simp [nthIs, hc] at h
  · rw [bump_eq hc]
    simpa [nthIs, is, nextIs, hc] using h

theorem bump_bump (h : Stage body place level 0 c) (hdot : c.is .dot = true)
    (hname : c.nthIs 1 .identifier = true) : Stage body place level 0 c.bump.bump :=
  (h.bump_of_is hl hdot rfl).bump_of_is hl (is_bump_of_nthIs hname) rfl

theorem skipModport (h : Stage body place level 0 c) :
    Stage body place level 0 c.skipModport := by
  unfold Cursor.skipModport
  split
  · next hname =>
    obtain ⟨⟨hdot, hfirst⟩, -⟩ := by simpa only [Bool.and_eq_true] using hname
    exact h.bump_bump hl hdot hfirst
  · exact h

theorem skipTypePath (h : Stage body place level 0 c) (bound : List OutlineToken) :
    Stage body place level 0 (c.skipTypePath bound) := by
  induction bound generalizing c with
  | nil => exact h
  | cons _ bound ih =>
    have hpackages := h.skipPackages hl
    rw [Cursor.skipTypePath]
    dsimp only
    split
    · next hname =>
      have hname := hpackages.bump_of_is hl hname rfl
      have hparameters : Stage body place level 0
          (if c.skipPackages.bump.is .hash && c.skipPackages.bump.nthIs 1 .parenOpen then
            c.skipPackages.bump.bump.skipBalanced else c.skipPackages.bump) := by
        split
        · next hhash =>
          have hhash := (Bool.and_eq_true_iff.1 hhash).1
          exact (hname.bump_of_is hl hhash rfl).skipBalanced hl
        · exact hname
      generalize (if c.skipPackages.bump.is .hash && c.skipPackages.bump.nthIs 1 .parenOpen then
        c.skipPackages.bump.bump.skipBalanced else c.skipPackages.bump) = d at hparameters ⊢
      split
      · next hscope => exact ih (hparameters.bump_of_is hl hscope rfl)
      · exact hparameters.skipModport hl
    · exact hpackages

theorem skipTypeReference (h : Stage body place level 0 c) :
    Stage body place level 0 c.skipTypeReference := h.skipTypePath hl _

theorem skipTypeLead (h : Stage body place level 0 c) :
    Stage body place level 0 c.skipTypeLead := by
  have hvar : Stage body place level 0 (c.eatText "var") := by
    unfold Cursor.eatText
    split
    · next hvar => exact h.bump_of_isText hl hvar rfl
    · exact h
  unfold Cursor.skipTypeLead
  refine Stage.skipWhile hl ?_ ?_
  · dsimp only
    split
    · next hnet =>
      have hnet := hvar.bump_of_is hl hnet rfl
      split
      · exact hnet.skipBalanced hl
      · exact hnet
    · exact hvar
  · intro t ht
    have hrole : t.role = .modifier := by
      simpa using (Bool.and_eq_true_iff.1 ht).1
    simp [OutlineToken.isOpen, hrole]

theorem skipTypeName (h : Stage body place level 0 c) :
    Stage body place level 0 c.skipTypeName := by
  unfold Cursor.skipTypeName
  dsimp only
  split
  · next htype => exact h.bump_of_is hl htype rfl
  · split
    · exact h.skipTypeReference hl
    · split
      · split
        · exact h.skipTypeReference hl
        · exact h
      · split
        · next hinterface =>
          have hinterface := h.bump_of_isText hl hinterface rfl
          split
          · next hmodport =>
            obtain ⟨hdot, hname⟩ := Bool.and_eq_true_iff.1 hmodport
            exact hinterface.bump_bump hl hdot hname
          · split
            · exact hinterface.skipTypeReference hl
            · exact hinterface
        · split
          · next htype => exact (h.bump_of_isText hl htype rfl).skipBalanced hl
          · exact h

/-! ### Bodies in the body -/

/-- A brace in front of a body in the body is one more bracket that is open. -/
theorem bump_braceOpen (h : Stage body place level 0 c) (hc : c.is .braceOpen = true) :
    Stage body place (level + 1) 0 c.bump := by
  obtain ⟨t, rest, hrest, hrole⟩ := exists_next_of_is hc
  have hnest : t.nest 0 = 1 := by simp [OutlineToken.nest, OutlineToken.isOpen, hrole]
  have hstep := h.step hl hrest
  refine ⟨hstep.ahead, ?_⟩
  rcases hstep.stands with ⟨n, hn, hle, hclosing⟩ | ⟨n, hn, hdimensions⟩ | hpast
  · exact .inl ⟨n, hn, by omega, hclosing⟩
  · -- No brace stands between the body and the name.
    rcases h.stands with ⟨m, hm, hle, hclosing⟩ | ⟨m, hm, hplace⟩ | hpast
    · rw [hrest, Cursor.skipClosing] at hclosing
      have hnest' : t.nest m = m + 1 := by simp [OutlineToken.nest, OutlineToken.isOpen, hrole]
      rw [if_neg (by omega), hnest', ← bump_eq hrest] at hclosing
      refine .inl ⟨m + 1, Nat.succ_ne_zero m, by omega, ?_⟩
      rw [bump_eq hrest] at hclosing ⊢
      exact hclosing
    · obtain rfl := Nat.le_zero.1 hm
      rw [hrest, Cursor.skipFrom, if_pos ⟨rfl, by simp [hrole]⟩, ← hrest] at hplace
      obtain ⟨u, more, hu, hname⟩ := exists_next_of_is hl.name
      rw [← hplace, hrest] at hu
      obtain ⟨rfl, -⟩ := List.cons.inj hu
      rw [hrole] at hname
      cases hname
    · refine .inr (.inr ?_)
      rw [bump_eq hrest]
      exact Nat.lt_succ_of_lt hpast
  · exact .inr (.inr hpast)

/-- A body in the body that was read to its end is closed. -/
theorem eat_braceClose (h : Stage body place (level + 1) 0 c)
    (hc : c.nextIs (fun t => t.role != .braceClose && !t.isRegionEnd) = false) :
    Stage body place level 0 (c.eat .braceClose) := by
  cases hrest : c.rest with
  | nil =>
    rw [Cursor.eat, if_neg (by simp [is, nextIs, hrest])]
    exact past h.ahead (h.pos_lt_of_rest_eq_nil hl hrest)
  | cons t rest =>
    by_cases hrole : t.role = .braceClose
    · have hclose (n : Nat) : t.nest n = n - 1 := by
        simp [OutlineToken.nest, OutlineToken.isOpen, OutlineToken.isClose, hrole]
      rw [Cursor.eat, if_pos (by simp [is, nextIs, hrest, hrole])]
      have hstep := h.step hl hrest
      rw [hclose] at hstep
      refine ⟨hstep.ahead, ?_⟩
      rcases h.stands with ⟨n, hn, hle, hclosing⟩ | hbehind
      · rw [hrest, Cursor.skipClosing, hclose, ← bump_eq hrest] at hclosing
        split at hclosing
        · refine .inr (.inl ⟨0, Nat.le_refl 0, ?_⟩)
          rw [hclosing]
          exact hl.skipFrom_eq
        · refine .inl ⟨n - 1, ‹_›, by omega, ?_⟩
          rw [bump_eq hrest] at hclosing ⊢
          exact hclosing
      · have hlater : Stage body place 0 0 c := ⟨h.ahead, .inr hbehind⟩
        have hstep := (hlater.step hl hrest).stands
        rw [hclose] at hstep
        rcases hstep with ⟨n, hn, hle, -⟩ | hstep
        · omega
        · exact .inr hstep
    · have hend : t.isRegionEnd = true := by simpa [nextIs, hrest, hrole] using hc
      rw [Cursor.eat, if_neg (by simp [is, nextIs, hrest, hrole])]
      rcases h.misleads_or_pos_lt hl hrest with hclear | hpast
      · rw [OutlineToken.misleads, hend, Bool.true_or] at hclear
        cases hclear
      · exact past h.ahead hpast

end Looks

end Stage

/-- A move up to a token stops in front of one. -/
theorem nextIs_skipUntil (stop : OutlineToken → Bool) (c : Cursor) :
    (c.skipUntil stop).nextIs (!stop ·) = false := by
  have hfrom (tokens : List OutlineToken) (depth : Nat) (c : Cursor) :
      (skipFrom stop depth c tokens).nextIs (!stop ·) = false := by
    induction tokens generalizing depth c with
    | nil => rfl
    | cons t rest ih =>
      rw [skipFrom]
      split
      · next hstop => simp [nextIs, hstop.2]
      · exact ih _ _
  exact hfrom _ _ _

/-- A move that stops earlier is on the way of one that stops later. -/
theorem skipUntil_skipUntil {stop stop' : OutlineToken → Bool}
    (h : ∀ t, stop t = true → stop' t = true) (c : Cursor) :
    (c.skipUntil stop').skipUntil stop = c.skipUntil stop := by
  have hfrom (tokens : List OutlineToken) (depth : Nat) (c : Cursor) (hc : c.rest = tokens) :
      (skipFrom stop' depth c tokens).skipUntil stop = skipFrom stop depth c tokens := by
    induction tokens generalizing depth c with
    | nil => rfl
    | cons t rest ih =>
      by_cases hstop : depth = 0 ∧ stop' t
      · rw [skipFrom, if_pos hstop, ← hc, hstop.1, skipUntil]
      · rw [skipFrom, if_neg hstop, skipFrom, if_neg fun hs => hstop ⟨hs.1, h t hs.2⟩]
        exact ih _ _ rfl
  exact hfrom c.rest 0 c rfl

/-- A move to a semicolon reads any bracket that it starts at. -/
theorem nextIs_isOpen_of_skipToSemicolon_eq {c : Cursor} (h : c.skipToSemicolon = c) :
    c.nextIs (·.isOpen) = false := by
  cases hrest : c.rest with
  | nil => simp [nextIs, hrest]
  | cons t rest =>
    by_cases hopen : t.isOpen = true
    · have hsemicolon : t.role ≠ .semicolon := by
        intro hrole
        simp [OutlineToken.isOpen, hrole] at hopen
      have hend := OutlineToken.isRegionEnd_of_isOpen hopen
      exact absurd (congrArg left h) (Nat.ne_of_lt (left_skipToSemicolon_lt hrest hsemicolon hend))
    · simpa [nextIs, hrest] using hopen

end Cursor

end HdlIndex
