import HdlIndex.Proofs.Outline.InStep
import HdlIndex.Proofs.Outline.Moves

/-! Stretches of a reading. A stretch is made of moves, of declarations in the innermost open scope,
and of containers, which are stretches between the opening and the closing of a scope. It says which
acts are done and where in the tokens: a declaration starts at a place that the stretch has seen, and
its name is among the tokens that were read since. Main statement: behind a stretch the scopes are
open that were open in front of it, and the table is what the acts of the stretch leave behind in the
innermost one. -/

namespace HdlIndex

/-- Whether an act declares nothing. -/
def Act.IsNote : Act → Prop
  | declare _ | container _ _ _ => False
  | importing _ | exporting _ | countAnonymous => True

/-- Whether a token can make a reading lose count of brackets: the end of a region stops it, and a
bracket in the guise of a word opens something unseen. -/
def OutlineToken.misleads (t : OutlineToken) : Bool :=
  t.isRegionEnd || t.isOpen && ["var", "interface", "type"].contains t.text

namespace Cursor

/-- Where the body behind a keyword opens, if it does. -/
def bodyFrom (c : Cursor) : Cursor :=
  c.bump.skipUntil fun t => t.role == .braceOpen || t.role == .semicolon || t.isRegionEnd

/-- Where the name of an alias is looked up: behind the body of a keyword and the dimensions. -/
def behindBody (c : Cursor) : Cursor := c.bodyFrom.skipBalanced.skipDimensions

/-- Whether the name of an alias is looked up beyond a token that misleads the reading: behind the
keyword of a body, which is read, such a token comes first and then the name. -/
def NamedBeyond (start : Cursor) (name : OutlineToken) (kind : SymbolKind) (stop : Cursor) : Prop :=
  ∃ (keyword : OutlineToken) (body : List OutlineToken) (c : Cursor),
    start.Ahead c ∧ c.Reads (keyword :: body) c.behindBody ∧ c.behindBody.identifier? = some name ∧
      (keyword.role = .aggregate ∨ keyword.role = .enumeration) ∧
      kind = .typeAlias keyword.text ∧ (∃ t ∈ body, t.misleads) ∧ c.bump.Ahead stop

namespace NamedBeyond

variable {start stop : Cursor} {name : OutlineToken} {kind : SymbolKind}

theorem exists_between (h : start.NamedBeyond name kind stop) : ∃ t, start.Between t stop := by
  obtain ⟨keyword, body, c, hstart, hreads, -, -, -, -, hstop⟩ := h
  have hkeyword : c.Between keyword c.bump := .next hreads.rest
  exact ⟨keyword, .after hstart (hkeyword.trans hstop)⟩

theorem exists_between_name (h : start.NamedBeyond name kind stop) :
    ∃ next, start.Between name next := by
  obtain ⟨keyword, body, c, hstart, hreads, hname, -⟩ := h
  have hbody : c.Ahead c.behindBody := ⟨keyword :: body, hreads⟩
  exact ⟨c.behindBody.bump, .after (hstart.trans hbody) (between_identifier? hname)⟩

end NamedBeyond

end Cursor

namespace Reading

/-- Whether a row of acts leads from one reading to another. No declaration starts in front of
`front`. -/
inductive Stretch (doc : Document) : Cursor → Reading → List Act → Reading → Prop
  | refl (front : Cursor) (r : Reading) : Stretch doc front r [] r
  | move {front : Cursor} {r s t : Reading} {acts : List Act} (h : Stretch doc front r acts s)
      (hcursor : s.cursor.Ahead t.cursor) (htable : t.table = s.table)
      (hscopes : t.scopes = s.scopes) : Stretch doc front r acts t
  | note {front : Cursor} {r s : Reading} {acts : List Act} (h : Stretch doc front r acts s)
      {a : Act} (ha : a.IsNote) :
      Stretch doc front r (acts ++ [a]) { s with table := a.perform s.scope s.table }
  | declare {front : Cursor} {r s : Reading} {acts : List Act} (h : Stretch doc front r acts s)
      {start : Cursor} {name : OutlineToken} (kind : SymbolKind) (hstart : front.Ahead start)
      (hname : start.Between name s.cursor) :
      Stretch doc front r
        (acts ++ [.declare (doc.symbol name kind start.nextStart s.cursor.stop)])
        (s.declare doc name kind start.nextStart)
  | container {front : Cursor} {r s u : Reading} {acts inner : List Act}
      (h : Stretch doc front r acts s) {start : Cursor} {name : OutlineToken} {symbol : Symbol}
      (hplace : symbol.declaration = doc.origins.location name.start name.stop)
      (hstart : front.Ahead start) (hopen : start.Ahead s.cursor)
      (hinner : Stretch doc start (s.enter symbol) inner u)
      (hname : start.Between name u.cursor ∨ start.NamedBeyond name symbol.kind u.cursor) :
      Stretch doc front r
        (acts ++ [.container symbol inner (doc.origins.definition start.nextStart u.cursor.stop)])
        (u.leave doc start.nextStart)

variable {doc : Document} {front start : Cursor} {r r₀ s t u : Reading} {acts more : List Act}

theorem cursor_leave (doc : Document) (start : Nat) (r : Reading) :
    (r.leave doc start).cursor = r.cursor := by
  unfold leave
  split <;> rfl

theorem scope_eq (h : s.scopes = r.scopes) : s.scope = r.scope := by rw [scope, scope, h]

namespace Stretch

theorem trans (h : Stretch doc front r acts s) (h' : Stretch doc front s more t) :
    Stretch doc front r (acts ++ more) t := by
  induction h' with
  | refl => rwa [List.append_nil]
  | move _ hcursor htable hscopes ih => exact (ih h).move hcursor htable hscopes
  | note _ ha ih =>
    rw [← List.append_assoc]
    exact (ih h).note ha
  | declare _ kind hstart hname ih =>
    rw [← List.append_assoc]
    exact (ih h).declare kind hstart hname
  | container _ hplace hstart hopen hinner hname ih _ =>
    rw [← List.append_assoc]
    exact (ih h).container hplace hstart hopen hinner hname

/-- What starts behind a place starts behind any earlier one. -/
theorem weaken {front' : Cursor} (hfront : front'.Ahead front)
    (h : Stretch doc front r acts s) : Stretch doc front' r acts s := by
  induction h with
  | refl => exact .refl _ _
  | move _ hcursor htable hscopes ih => exact (ih hfront).move hcursor htable hscopes
  | note _ ha ih => exact (ih hfront).note ha
  | declare _ kind hstart hname ih => exact (ih hfront).declare kind (hfront.trans hstart) hname
  | container _ hplace hstart hopen hinner hname ih _ =>
    exact (ih hfront).container hplace (hfront.trans hstart) hopen hinner hname

theorem ahead (h : Stretch doc front r acts s) : r.cursor.Ahead s.cursor := by
  induction h with
  | refl => exact .refl _
  | move _ hcursor _ _ ih => exact ih.trans hcursor
  | note _ _ ih => exact ih
  | declare _ _ _ _ ih => exact ih
  | container _ _ _ _ _ _ ih ih' =>
    rw [cursor_leave]
    exact ih.trans ih'

/-- Every scope that a stretch opens it closes, and its acts are done in the scope that it starts
in. -/
theorem scopes_table (h : Stretch doc front r acts s) (hr : r.scopes ≠ []) :
    s.scopes = r.scopes ∧ s.table = Act.performAll r.scope acts r.table := by
  induction h with
  | refl => exact ⟨rfl, rfl⟩
  | move _ _ htable hscopes ih =>
    rw [htable, hscopes]
    exact ih hr
  | note _ _ ih =>
    obtain ⟨hscopes, htable⟩ := ih hr
    refine ⟨hscopes, ?_⟩
    rw [Act.performAll_append, ← htable, ← scope_eq hscopes]
    rfl
  | declare _ _ _ _ ih =>
    obtain ⟨hscopes, htable⟩ := ih hr
    refine ⟨hscopes, ?_⟩
    rw [Act.performAll_append, ← htable, ← scope_eq hscopes]
    rfl
  | @container _ _ _ _ _ _ _ start _ _ _ _ _ _ _ ih ih' =>
    obtain ⟨hscopes, htable⟩ := ih hr
    obtain ⟨hscopes', htable'⟩ := ih' (List.cons_ne_nil _ _)
    have hleave := leave_eq doc start.nextStart hscopes' (by rwa [hscopes])
    refine ⟨?_, ?_⟩
    · rw [hleave]
      exact hscopes
    · rw [hleave, Act.performAll_append, ← htable, ← scope_eq hscopes]
      dsimp only
      rw [htable']
      rfl

end Stretch

/-! ### Leading from one reading to another -/

/-- Whether a stretch leads from one reading to another, with all declarations behind `front`. -/
structure Leads (doc : Document) (front : Cursor) (r s : Reading) : Prop where
  behind : front.Ahead s.cursor
  stretch : ∃ acts, Stretch doc front r acts s

namespace Leads

theorem refl (doc : Document) (h : front.Ahead r.cursor) : Leads doc front r r :=
  ⟨h, [], .refl _ _⟩

/-- A reading that starts with the next token. -/
theorem here (doc : Document) (r : Reading) : Leads doc r.cursor r r := refl doc (.refl _)

/-- A reading that has read a keyword. -/
theorem bumped (doc : Document) (r : Reading) : Leads doc r.cursor r.bump r.bump :=
  refl doc (Cursor.Ahead.refl r.cursor).bump

theorem ahead (h : Leads doc front r s) : r.cursor.Ahead s.cursor := by
  obtain ⟨-, acts, h⟩ := h
  exact h.ahead

theorem weaken (h : Leads doc start r s) (hstart : front.Ahead start) : Leads doc front r s := by
  obtain ⟨hfront, acts, h⟩ := h
  exact ⟨hstart.trans hfront, acts, h.weaken hstart⟩

/-- A reading goes on from where a stretch has led. -/
theorem next (h : Leads doc front r s) (h' : Leads doc start s t)
    (hstart : front.Ahead start) : Leads doc front r t := by
  obtain ⟨-, acts, ha⟩ := h
  obtain ⟨hfront, more, hb⟩ := h'.weaken hstart
  exact ⟨hfront, acts ++ more, ha.trans hb⟩

/-- A reading goes on with a rule that declares nothing in front of where it starts. -/
theorem follow (h : Leads doc front r s) (h' : Leads doc s.cursor s t) : Leads doc front r t :=
  h.next h' h.behind

theorem ite {b : Bool} (h : Leads doc front r s) (h' : Leads doc front r t) :
    Leads doc front r (if b then s else t) := by
  split
  · exact h
  · exact h'

/-! ### Single moves -/

/-- Another place ahead, and what is noted on the way. -/
theorem relocate (h : Leads doc front r s) (hcursor : s.cursor.Ahead t.cursor)
    (htable : t.table = s.table) (hscopes : t.scopes = s.scopes) : Leads doc front r t := by
  obtain ⟨hfront, acts, ha⟩ := h
  exact ⟨hfront.trans hcursor, acts, ha.move hcursor htable hscopes⟩

theorem move (h : Leads doc front r s) {f : Cursor → Cursor} (hf : ∀ c : Cursor, c.Ahead (f c)) :
    Leads doc front r (s.move f) := h.relocate (hf s.cursor) rfl rfl

theorem bump (h : Leads doc front r s) : Leads doc front r s.bump :=
  h.move fun c => (Cursor.Ahead.refl c).bump

theorem eat (h : Leads doc front r s) (role : Role) : Leads doc front r (s.eat role) :=
  h.move fun c => (Cursor.Ahead.refl c).eat role

theorem skipUntil (h : Leads doc front r s) (stop : OutlineToken → Bool) :
    Leads doc front r (s.move (·.skipUntil stop)) :=
  h.move fun c => (Cursor.Ahead.refl c).skipUntil stop

theorem skipWhile (h : Leads doc front r s) (test : OutlineToken → Bool) :
    Leads doc front r (s.move (·.skipWhile test)) :=
  h.move fun c => (Cursor.Ahead.refl c).skipWhile test

theorem skipToSemicolon (h : Leads doc front r s) :
    Leads doc front r (s.move (·.skipToSemicolon)) :=
  h.move fun c => (Cursor.Ahead.refl c).skipToSemicolon

theorem skipBalanced (h : Leads doc front r s) : Leads doc front r (s.move (·.skipBalanced)) :=
  h.move fun c => (Cursor.Ahead.refl c).skipBalanced

theorem skipDeclarator (h : Leads doc front r s) :
    Leads doc front r (s.move (·.skipDeclarator)) :=
  h.move fun c => (Cursor.Ahead.refl c).skipDeclarator

theorem eatLabel (h : Leads doc front r s) : Leads doc front r (s.move (·.eatLabel)) :=
  h.move fun c => (Cursor.Ahead.refl c).eatLabel

theorem bumpIfAt (h : Leads doc front r s) (earlier : Cursor) :
    Leads doc front r (s.bumpIfAt earlier) := by
  unfold Reading.bumpIfAt
  split
  · exact h.bump
  · exact h

theorem addPackage (h : Leads doc front r s) (package : String) :
    Leads doc front r (s.addPackage package) := h.relocate (.refl _) rfl rfl

/-! ### Acts -/

theorem note (h : Leads doc front r s) {a : Act} (ha : a.IsNote) :
    Leads doc front r { s with table := a.perform s.scope s.table } := by
  obtain ⟨hfront, acts, h⟩ := h
  exact ⟨hfront, _, h.note ha⟩

theorem declare (h : Leads doc front r s) {name : OutlineToken} (kind : SymbolKind)
    (hstart : front.Ahead start) (hname : start.Between name s.cursor) :
    Leads doc front r (s.declare doc name kind start.nextStart) := by
  obtain ⟨hfront, acts, h⟩ := h
  exact ⟨hfront, _, h.declare kind hstart hname⟩

/-- A container, whose body is a stretch of its own. -/
theorem within (h : Leads doc front r s) {name : OutlineToken} {symbol : Symbol}
    {body : Reading → Reading}
    (hplace : symbol.declaration = doc.origins.location name.start name.stop)
    (hstart : front.Ahead start) (hopen : start.Ahead s.cursor)
    (hbody : Leads doc start (s.enter symbol) (body (s.enter symbol)))
    (hname : start.Between name (body (s.enter symbol)).cursor ∨
      start.NamedBeyond name symbol.kind (body (s.enter symbol)).cursor) :
    Leads doc front r (s.within doc symbol start.nextStart body) := by
  obtain ⟨-, acts, ha⟩ := h
  obtain ⟨hfront, inner, hinner⟩ := hbody
  refine ⟨?_, _, ha.container hplace hstart hopen hinner hname⟩
  rw [Reading.within, cursor_leave]
  exact hstart.trans hfront

/-- A container with its name in front of the body. -/
theorem within_named (h : Leads doc front r s) {name : OutlineToken} (kind : SymbolKind)
    {body : Reading → Reading} (hstart : front.Ahead start)
    (hname : start.Between name s.cursor) (hbody : ∀ s, Leads doc s.cursor s (body s)) :
    Leads doc front r (s.within doc (doc.named name kind) start.nextStart body) := by
  have hread : Leads doc s.cursor (s.enter (doc.named name kind))
      (body (s.enter (doc.named name kind))) := hbody (s.enter (doc.named name kind))
  refine h.within rfl hstart hname.ahead ?_ (.inl (hname.trans hread.ahead))
  exact hread.weaken hname.ahead

/-! ### Repetitions -/

/-- What every step of a repetition does leads on from the step before. -/
theorem iterate {α : Type} {step : Reading → Option Reading} (h : Leads doc front r s)
    (hstep : ∀ s t, step s = some t → Leads doc s.cursor s t) (bound : List α) :
    Leads doc front r (HdlIndex.iterate step bound s) :=
  iterate_induction (P := Leads doc front r)
    (fun s t hs ht => hs.follow (hstep s t ht)) bound s h

theorem whileNext (h : Leads doc front r s) (test : OutlineToken → Bool)
    {step : Reading → Reading} (hstep : ∀ s, Leads doc s.cursor s (step s)) :
    Leads doc front r (s.whileNext test step) := by
  refine h.iterate ?_ _
  intro s t ht
  split at ht
  · cases ht
    exact hstep s
  · cases ht

end Leads

/-! ### Repetitions that end -/

/-- Goes on as long as the next token satisfies a test. -/
def stepWhile (test : OutlineToken → Bool) (step : Reading → Reading) (r : Reading) :
    Option Reading :=
  if r.cursor.nextIs test then some (step r) else none

/-- A step that reads the next token whenever there is one is repeated until no token satisfies the
test. -/
theorem ends_whileNext (test : OutlineToken → Bool) {step : Reading → Reading}
    (hstep : ∀ s : Reading, s.cursor.bump.Ahead (step s).cursor) (r : Reading) :
    Ends (stepWhile test step) r (r.whileNext test step) := by
  refine ends_iterate (fun s : Reading => s.cursor.left) ?_ _ r (Nat.le_refl _)
  intro s t ht
  unfold stepWhile at ht
  split at ht
  · next hnext =>
    cases ht
    refine (hstep s).left_lt fun hrest => ?_
    simp [Cursor.nextIs, hrest] at hnext
  · cases ht

theorem nextIs_whileNext (test : OutlineToken → Bool) {step : Reading → Reading}
    (hstep : ∀ s : Reading, s.cursor.bump.Ahead (step s).cursor) (r : Reading) :
    (r.whileNext test step).cursor.nextIs test = false := by
  have hstops := (ends_whileNext test hstep r).stops
  unfold stepWhile at hstops
  split at hstops
  · cases hstops
  · next hnext => exact Bool.eq_false_iff.2 hnext

/-- To make sure that a token was read is to read one. -/
theorem ahead_bumpIfAt {earlier : Cursor} (h : earlier.Ahead r.cursor) :
    earlier.bump.Ahead (r.bumpIfAt earlier).cursor := by
  unfold bumpIfAt
  split
  · next hpos =>
    rw [← h.eq_of_pos_eq hpos]
    exact .refl _
  · next hpos => exact h.behind_next (h.left_lt_of_pos_ne hpos)

end Reading

end HdlIndex
