import HdlIndex.Proofs.Outline.Brackets

/-! Aliases of bodies. The reading goes over a body declaration by declaration. As far as it keeps to
brackets it cannot stop in between: where it stands in front of the end of the body, it has no more
brackets open than bodies. Main statement: a reading of the body passes the name behind it, unless the
tokens in front of the name mislead it, which takes the end of a region. -/

namespace HdlIndex

namespace Cursor

theorem nextIs_isOpen_of_is_braceOpen {c : Cursor} (h : c.is .braceOpen = true) :
    c.nextIs (·.isOpen) = true := by
  obtain ⟨t, rest, hrest, hrole⟩ := exists_next_of_is h
  simp [nextIs, hrest, OutlineToken.isOpen, hrole]

/-- A name that was found behind a body belongs to a body with a brace. -/
theorem is_bodyFrom (c : Cursor) {name : OutlineToken}
    (hname : c.behindBody.identifier? = some name) : c.bodyFrom.is .braceOpen = true := by
  have hstops : c.bodyFrom.nextIs (fun t => !(t.role == .braceOpen || t.role == .semicolon ||
    t.isRegionEnd)) = false := nextIs_skipUntil _ _
  unfold behindBody at hname
  cases hrest : c.bodyFrom.rest with
  | nil =>
    simp [skipBalanced, skipDimensions, skipUntil, skipFrom, nextIs, identifier?, hrest] at hname
  | cons t rest =>
    have hcases : t.role = .braceOpen ∨ t.role = .semicolon ∨ t.isRegionEnd = true := by
      simpa [nextIs, hrest, or_assoc, Decidable.or_iff_not_imp_left] using hstops
    rcases hcases with hbrace | hother
    · simp [is, nextIs, hrest, hbrace]
    · -- Nothing but a brace is passed over, so the name would be the token that stopped the move.
      have hopen : t.isOpen = false := by
        rcases hother with hsemicolon | hend
        · simp [OutlineToken.isOpen, hsemicolon]
        · by_cases hopen : t.isOpen = true
          · rw [OutlineToken.isRegionEnd_of_isOpen hopen] at hend
            cases hend
          · exact Bool.eq_false_iff.2 hopen
      have hbracket : t.role ≠ .bracketOpen := by
        intro hrole
        simp [OutlineToken.isOpen, hrole] at hopen
      have hbalanced : c.bodyFrom.skipBalanced = c.bodyFrom := by
        rw [skipBalanced, if_neg (by simp [nextIs, hrest, hopen])]
      have hdimensions : c.bodyFrom.skipDimensions = c.bodyFrom := by
        rw [skipDimensions, skipUntil, hrest, skipFrom, if_pos ⟨rfl, by simpa using hbracket⟩, ← hrest]
      rw [hbalanced, hdimensions] at hname
      obtain ⟨u, more, hu, hrole⟩ := exists_next_of_is (is_of_identifier? hname)
      obtain ⟨rfl, -⟩ := List.cons.inj (hrest.symm.trans hu)
      simp [OutlineToken.isRegionEnd, hrole] at hother

end Cursor

/-! ### Readings of a body -/

namespace Reading

open Cursor (Stage LooksPast)

variable {doc : Document} {body place : Cursor} {level : Nat} {r : Reading}

section Looks

variable (hl : LooksPast body place)
include hl

theorem stage_nameList {entry : OutlineToken → Nat → Reading → Reading}
    (hentry : ∀ name start (s : Reading), Stage body place level 0 s.cursor →
      Stage body place level 0 (entry name start s).cursor)
    (bound : List OutlineToken) (first : Option Nat) (h : Stage body place level 0 r.cursor) :
    Stage body place level 0 (nameList entry bound first r).cursor := by
  induction bound generalizing first r with
  | nil => exact h
  | cons _ bound ih =>
    rw [nameList]
    split
    · exact h
    · next name hname =>
      have hbehind := hentry name (first.getD name.start) r.bump
        (h.bump_of_is hl (Cursor.is_of_identifier? hname) rfl)
      dsimp only
      split
      · next hcomma => exact ih none (hbehind.bump_of_is hl hcomma rfl)
      · exact hbehind

theorem stage_declarators (first : Nat) (kind : SymbolKind)
    (h : Stage body place level 0 r.cursor) :
    Stage body place level 0 (declarators doc first kind r).cursor := by
  refine Stage.skipToSemicolon hl (stage_nameList hl ?_ _ _ h)
  intro name start s hs
  exact hs.skipDeclarator hl

theorem stage_enumMembers (h : Stage body place level 0 r.cursor) :
    Stage body place level 0 (enumMembers doc r).cursor := by
  refine Stage.skipUntil hl (stage_nameList hl ?_ _ _ h) _
  intro name start s hs
  exact hs.skipDeclarator hl

/-- To make sure that a token was read is not to pass over a bracket if a bracket would be read
anyway. -/
theorem stage_bumpIfAt {earlier : Cursor} (hr : earlier.Ahead r.cursor)
    (h : Stage body place level 0 r.cursor)
    (hopen : r.cursor = earlier → r.cursor.nextIs (·.isOpen) = false) :
    Stage body place level 0 (r.bumpIfAt earlier).cursor := by
  unfold bumpIfAt
  split
  · next hpos => exact h.bump hl (hopen (hr.eq_of_pos_eq hpos))
  · exact h

section Types

variable {dataType : Reading → String × Reading}
  (hd : ∀ r : Reading, Leads doc r.cursor r (dataType r).2)
  (hs : ∀ (level : Nat) (r : Reading), Stage body place level 0 r.cursor →
    Stage body place level 0 (dataType r).2.cursor)
include hd hs

/-- A declaration in front of a bracket reads it together with the one that closes it, so no bracket
is ever passed over by itself. -/
theorem stage_fieldDeclaration (h : Stage body place level 0 r.cursor) :
    Stage body place level 0 (fieldDeclaration doc dataType r).cursor := by
  have hmodifiers : Stage body place level 0 (r.cursor.skipWhile (·.role == .modifier)) :=
    h.skipWhile hl fun t ht => by
      simp [OutlineToken.isOpen, show t.role = .modifier by simpa using ht]
  have hnext := hs level (r.move (·.skipWhile (·.role == .modifier))) hmodifiers
  have hlead : r.cursor.Ahead (r.move (·.skipWhile (·.role == .modifier))).cursor :=
    (Cursor.Ahead.refl r.cursor).skipWhile _
  have hahead := hlead.trans (hd _).ahead
  unfold fieldDeclaration
  dsimp only
  generalize dataType (r.move (·.skipWhile (·.role == .modifier))) = typed at hnext hahead ⊢
  obtain ⟨type, next⟩ := typed
  dsimp only at hnext hahead ⊢
  split
  · next hname =>
    have hlead : Leads doc r.cursor next.bump
        (declarators doc r.cursor.nextStart (.field type) next) :=
      leads_declarators_bump hahead hname (.field type)
    have hread := hlead.ahead
    refine stage_bumpIfAt hl (hahead.bump.trans hread) (stage_declarators hl _ _ hnext) ?_
    intro hsame
    have hlt := hread.left_lt (Cursor.rest_ne_nil_of_is hname)
    have hle := hahead.left_le
    have hleft := congrArg Cursor.left hsame
    omega
  · next hname =>
    have hread : next.cursor.Ahead (next.move (·.skipToSemicolon)).cursor :=
      (Cursor.Ahead.refl _).skipToSemicolon
    refine stage_bumpIfAt hl (hahead.trans hread) (hnext.skipToSemicolon hl) ?_
    intro hsame
    have hnext : next.cursor.skipToSemicolon = next.cursor := by
      refine hread.eq_of_left_eq (Nat.le_antisymm hread.left_le ?_)
      rw [hsame]
      exact hahead.left_le
    show next.cursor.skipToSemicolon.nextIs _ = false
    rw [hnext]
    exact Cursor.nextIs_isOpen_of_skipToSemicolon_eq hnext

/-- The members of a body in the body, and its closing brace. -/
theorem stage_members (h : Stage body place (level + 1) 0 r.cursor) (b : Bool) :
    Stage body place level 0
      (((if b then enumMembers doc else fields doc dataType) r).eat .braceClose).cursor := by
  cases b with
  | true =>
    refine (stage_enumMembers hl h).eat_braceClose hl ?_
    have hstops := Cursor.nextIs_skipUntil (fun t => t.role == .braceClose || t.isRegionEnd)
      (nameList (fun name start r => (r.move (·.skipDeclarator)).declare doc name .enumMember start)
        r.cursor.rest none r).cursor
    simp only [Bool.not_or] at hstops
    exact hstops
  | false =>
    refine Stage.eat_braceClose hl ?_ ?_
    · refine iterate_induction (P := fun s : Reading => Stage body place (level + 1) 0 s.cursor)
        ?_ r.cursor.rest r h
      intro s t hstage ht
      split at ht
      · cases ht
        exact stage_fieldDeclaration hl hd hs hstage
      · cases ht
    · exact nextIs_whileNext _ (fun s => (passes_fieldDeclaration hd s).ahead) r

theorem stage_aggregateBody (h : Stage body place level 0 r.cursor)
    (hr : r.is .aggregate = true ∨ r.is .enumeration = true) :
    Stage body place level 0 (aggregateBody doc dataType r).cursor := by
  have hkeyword : Stage body place level 0 r.bump.cursor := by
    rcases hr with hr | hr
    · exact h.bump_of_is hl hr rfl
    · exact h.bump_of_is hl hr rfl
  have hinside := hkeyword.skipUntil hl fun t =>
    t.role == .braceOpen || t.role == .semicolon || t.isRegionEnd
  unfold aggregateBody
  dsimp only
  split
  · next hbrace => exact stage_members hl hd hs (hinside.bump_braceOpen hl hbrace) _
  · exact hinside

theorem stage_anonymousAggregate (h : Stage body place level 0 r.cursor)
    (hr : r.is .aggregate = true ∨ r.is .enumeration = true) :
    Stage body place level 0 (anonymousAggregate doc dataType r).2.cursor := by
  unfold anonymousAggregate
  split
  · exact h
  · dsimp only
    rw [within, cursor_leave]
    exact stage_aggregateBody hl hd hs h hr

end Types

theorem stage_dataTypeWithin (bound : List OutlineToken) (level : Nat) (r : Reading)
    (h : Stage body place level 0 r.cursor) :
    Stage body place level 0 (dataTypeWithin doc bound r).2.cursor := by
  induction bound generalizing level r with
  | nil => exact h
  | cons _ bound ih =>
    have hlead := h.skipTypeLead hl
    rw [dataTypeWithin]
    dsimp only
    split
    · next hr =>
      refine (stage_anonymousAggregate hl (leads_dataTypeWithin bound) ih hlead ?_).skipUntil hl _
      simpa using hr
    · exact (hlead.skipTypeName hl).skipUntil hl _

end Looks

/-! ### Aliases of bodies -/

/-- The opening bracket of the body is the only one that is open behind it. -/
theorem stage_bump_body (hl : LooksPast body place) : Stage body place 1 0 body.bump := by
  have hopens := hl.opens
  cases hrest : body.rest with
  | nil => simp [Cursor.nextIs, hrest] at hopens
  | cons t rest =>
    have hopen : t.isOpen = true := by simpa [Cursor.nextIs, hrest] using hopens
    have hnest : t.nest 0 = 1 := by simp [OutlineToken.nest, hopen]
    refine ⟨(Cursor.Ahead.refl _).bump, .inl ⟨1, Nat.one_ne_zero, Nat.le_refl 1, ?_⟩⟩
    rw [Cursor.skipBalanced, if_pos hopens, hrest, Cursor.skipClosing, hnest, if_neg Nat.one_ne_zero,
      Cursor.bump_eq hrest]

/-- From in front of the name or behind it, a reading up to the semicolon has passed it. -/
theorem between_skipToSemicolon (hl : LooksPast body place) {c : Cursor} {name : OutlineToken}
    (hname : place.identifier? = some name) (h : Stage body place 0 0 c) :
    body.Between name c.skipToSemicolon := by
  obtain ⟨rest, hrest⟩ := Cursor.rest_of_identifier? hname
  have hrole : name.role = .identifier := by simpa [Cursor.identifier?, hrest] using hname
  rcases h.stands with ⟨n, hn, hle, -⟩ | ⟨n, hn, hplace⟩ | hpast
  · omega
  · obtain rfl := Nat.le_zero.1 hn
    have hdimensions : c.skipUntil (·.role != .bracketOpen) = place := hplace
    have hstops (t : OutlineToken) (ht : (t.role == .semicolon || t.isRegionEnd) = true) :
        (t.role != .bracketOpen) = true := by
      by_cases hbracket : t.role = .bracketOpen
      · simp [hbracket, OutlineToken.isRegionEnd] at ht
      · simpa using hbracket
    have hread : place.Between name (c.skipUntil fun t => t.role == .semicolon || t.isRegionEnd) := by
      rw [← Cursor.skipUntil_skipUntil hstops c, hdimensions]
      refine (Cursor.Between.next hrest).trans (Cursor.ahead_skipUntil hrest ?_)
      simp [hrole, OutlineToken.isRegionEnd]
    exact .after hl.ahead (hread.trans ((Cursor.Ahead.refl _).eat _))
  · have hread := hl.between_of_pos_lt h.ahead hpast hname
    exact .after hl.ahead (hread.trans (Cursor.Ahead.refl _).skipToSemicolon)

/-- The body of an alias and what is behind it, up to the semicolon. -/
def aliasBody (doc : Document) (body : Cursor) (r : Reading) : Reading :=
  (if body.nextIs (·.isOpen) then r.aggregateBody doc (dataType doc) else r).move (·.skipToSemicolon)

theorem aliasBody_eq {body : Cursor} (h : body.is .braceOpen = true) :
    aliasBody doc body r = (r.aggregateBody doc (dataType doc)).move (·.skipToSemicolon) := by
  rw [aliasBody, if_pos (Cursor.nextIs_isOpen_of_is_braceOpen h)]

/-- The reading of a body passes the name behind it, unless a token on the way misleads. -/
theorem between_aliasBody {name : OutlineToken}
    (hname : r.cursor.behindBody.identifier? = some name)
    (hclear : ∀ t, r.cursor.bump.Between t r.cursor.behindBody → t.misleads = false) :
    r.cursor.Between name (aliasBody doc r.cursor.bodyFrom r).cursor := by
  have hbrace := Cursor.is_bodyFrom r.cursor hname
  have hbody : r.cursor.bump.Ahead r.cursor.bodyFrom := (Cursor.Ahead.refl _).skipUntil _
  have hl : LooksPast r.cursor.bodyFrom r.cursor.behindBody :=
    ⟨Cursor.nextIs_isOpen_of_is_braceOpen hbrace, rfl, Cursor.is_of_identifier? hname,
      fun t ht => hclear t (.after hbody ht)⟩
  have hinside : (r.bump.move (·.skipUntil fun t => t.role == .braceOpen || t.role == .semicolon ||
    t.isRegionEnd)).is .braceOpen = true := hbrace
  have hread : Stage r.cursor.bodyFrom r.cursor.behindBody 0 0
      (aggregateBody doc (dataType doc) r).cursor := by
    rw [aggregateBody]
    dsimp only
    rw [if_pos hinside]
    refine stage_members hl leads_dataType (fun level s => stage_dataTypeWithin hl _ level s) ?_ _
    exact stage_bump_body hl
  have hbetween := between_skipToSemicolon hl hname hread
  rw [aliasBody_eq hbrace]
  exact .after ((Cursor.Ahead.refl _).bump.trans hbody) hbetween

end Reading

end HdlIndex
