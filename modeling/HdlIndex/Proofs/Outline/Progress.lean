import HdlIndex.Proofs.Outline.Recursion

/-! A reading gets on, whatever the tokens are. An item reads at least one token, so the repetitions
over items and over what stands in lists and bodies end by themselves; the bounds in their definitions
never cut them short. Main statement: reading items and types satisfies equations without bounds,
which have no other solution, every repetition ends, and no count of open brackets would go below
zero. -/

namespace HdlIndex

/-! ### Counts of open brackets -/

/-- The number of open brackets behind the token, unless it closes one that was never opened. -/
def OutlineToken.nest? (depth : Nat) (t : OutlineToken) : Option Nat :=
  if t.isOpen then some (depth + 1)
  else if t.isClose then if depth = 0 then none else some (depth - 1)
  else some depth

theorem OutlineToken.nest?_eq {t : OutlineToken} {depth : Nat}
    (h : t.isOpen = false → t.isClose = true → depth ≠ 0) :
    t.nest? depth = some (t.nest depth) := by
  unfold nest? nest
  cases hopen : t.isOpen with
  | true => rfl
  | false =>
    cases hclose : t.isClose with
    | true => simp [h hopen hclose]
    | false => rfl

namespace Cursor

/-- The move to a token that stops it, unless the count of open brackets goes below zero. -/
def skipFrom? (stop : OutlineToken → Bool) (depth : Nat) (c : Cursor) :
    List OutlineToken → Option Cursor
  | [] => some { c with rest := [] }
  | t :: rest =>
    if depth = 0 ∧ stop t then some { c with rest := t :: rest }
    else (t.nest? depth).bind fun depth => skipFrom? stop depth ⟨c.pos + 1, t.stop, rest⟩ rest

/-- The move behind a closing bracket, unless the count of open brackets goes below zero. -/
def skipClosing? (depth : Nat) (c : Cursor) : List OutlineToken → Option Cursor
  | [] => some { c with rest := [] }
  | t :: rest =>
    (t.nest? depth).bind fun depth =>
      if depth = 0 then some ⟨c.pos + 1, t.stop, rest⟩
      else skipClosing? depth ⟨c.pos + 1, t.stop, rest⟩ rest

/-- A move that stops at closing brackets counts none that was not opened. -/
theorem skipFrom?_eq {stop : OutlineToken → Bool} (hstop : ∀ t, t.isClose = true → stop t = true)
    (depth : Nat) (c : Cursor) (tokens : List OutlineToken) :
    skipFrom? stop depth c tokens = some (skipFrom stop depth c tokens) := by
  induction tokens generalizing depth c with
  | nil => rfl
  | cons t rest ih =>
    rw [skipFrom?, skipFrom]
    split
    · rfl
    · next hgo =>
      rw [OutlineToken.nest?_eq fun _ hclose hdepth => hgo ⟨hdepth, hstop t hclose⟩]
      exact ih _ _

theorem skipClosing?_eq {depth : Nat} (hdepth : depth ≠ 0) (c : Cursor)
    (tokens : List OutlineToken) :
    skipClosing? depth c tokens = some (skipClosing depth c tokens) := by
  induction tokens generalizing depth c with
  | nil => rfl
  | cons t rest ih =>
    rw [skipClosing?, skipClosing, OutlineToken.nest?_eq fun _ _ => hdepth]
    dsimp only [Option.bind_some]
    split
    · rfl
    · next hopen => exact ih hopen _

/-- The move over a bracketed group starts with a bracket that is opened. -/
theorem skipClosing?_eq_skipBalanced {c : Cursor} (h : c.nextIs (·.isOpen) = true) :
    skipClosing? 0 c c.rest = some c.skipBalanced := by
  rw [skipBalanced, if_pos h]
  cases hrest : c.rest with
  | nil => simp [nextIs, hrest] at h
  | cons t rest =>
    have hopen : t.isOpen = true := by simpa [nextIs, hrest] using h
    have hnest : t.nest 0 = 1 := by simp [OutlineToken.nest, hopen]
    rw [skipClosing?, skipClosing, OutlineToken.nest?_eq fun hclosed _ => by simp [hopen] at hclosed,
      hnest, if_neg Nat.one_ne_zero, Option.bind_some, if_neg Nat.one_ne_zero]
    exact skipClosing?_eq Nat.one_ne_zero _ _

theorem skipFrom?_eq_skipExpression (c : Cursor) :
    skipFrom? (fun t => t.role == .comma || t.role == .semicolon || t.isClose || t.isRegionEnd) 0 c
      c.rest = some c.skipExpression :=
  skipFrom?_eq (fun t ht => by simp [ht]) 0 c c.rest

end Cursor

namespace Reading

/-! ### Items -/

/-- An item reads tokens, and only tokens that are there. -/
theorem reads_item {doc : Document} {r : Reading} (hr : r.cursor.rest ≠ []) :
    ∃ tokens, tokens ≠ [] ∧ r.cursor.Reads tokens (r.item doc).cursor := by
  obtain ⟨tokens, htokens⟩ := (passes_item doc r).ahead
  cases hrest : r.cursor.rest with
  | nil => exact absurd hrest hr
  | cons t rest =>
    have hnext := Cursor.Reads.next hrest
    rw [← Cursor.bump_eq hrest] at hnext
    exact ⟨[t] ++ tokens, List.cons_ne_nil _ _, hnext.append htokens⟩

/-- The repetition over the ports of a list, with the type that is handed on. -/
def stepPort (doc : Document) (p : Option String × Reading) : Option (Option String × Reading) :=
  if p.2.cursor.nextIs listGoesOn then some (portEntry doc p.1 p.2) else none

theorem ends_ports (doc : Document) (r : Reading) :
    Ends (stepPort doc) (none, r.bump) (iterate (stepPort doc) r.cursor.rest (none, r.bump)) := by
  refine ends_iterate (fun p : Option String × Reading => p.2.cursor.left) ?_ _ _ ?_
  · rintro ⟨type, s⟩ q hq
    unfold stepPort at hq
    split at hq
    · next hnext =>
      cases hq
      refine (passes_portEntry type s).ahead.left_lt fun hrest => ?_
      simp [Cursor.nextIs, hrest] at hnext
    · cases hq
  · exact r.cursor.left_bump_le

/-- What it is to get on: items and types are read as their equations say, and no repetition goes on
for ever. -/
structure GetsOn (doc : Document) : Prop where
  /-- An item reads at least one token and never one that is not there. -/
  item : ∀ r : Reading, r.cursor.rest ≠ [] →
    ∃ tokens, tokens ≠ [] ∧ r.cursor.Reads tokens (r.item doc).cursor
  /-- Items are read with the rule for items, to whatever depth. -/
  item_eq : ∀ r : Reading, r.item doc = r.itemOrSkip doc (itemWith? doc (Reading.item doc))
  item_unique : ∀ f : Reading → Reading,
    (∀ r : Reading, f r = r.itemOrSkip doc (itemWith? doc f)) → f = Reading.item doc
  /-- Types are read with the rule for types, to whatever depth. -/
  dataType_eq : ∀ r : Reading, r.dataType doc = r.dataTypeWith doc (dataType doc)
  dataType_unique : ∀ f : Reading → String × Reading,
    (∀ r : Reading, f r = r.dataTypeWith doc f) → f = dataType doc
  /-- All tokens are read. -/
  run : ∀ r : Reading, Ends (stepWhile (fun _ => true) (Reading.item doc)) r (r.run doc) ∧
    (r.run doc).cursor.rest = []
  itemsUntil : ∀ (closing : Role) (r : Reading), ∃ s,
    Ends (stepWhile (·.role != closing) (Reading.item doc)) r s ∧
      r.itemsUntil (Reading.item doc) closing =
        if s.is closing then s.bump.move (·.eatLabel) else s
  generateBlock : ∀ r : Reading, ∃ s,
    Ends (stepWhile (!·.isRegionEnd) (Reading.item doc)) (r.bump.move (·.eatLabel)) s ∧
      (r.generateBlock doc (Reading.item doc)).cursor =
        if s.is .blockEnd then s.cursor.bump.eatLabel else s.cursor
  generateCase : ∀ r : Reading, ∃ s,
    Ends (stepWhile (!·.isRegionEnd) (caseItem doc (Reading.item doc)))
        (r.bump.move (·.skipBalanced)) s ∧
      r.generateCase doc (Reading.item doc) = s.eat .caseEnd
  routineBody : ∀ r : Reading, ∃ s,
    Ends (stepWhile (!endsRoutineBody ·) (routineItem doc)) r s ∧
      r.routineBody doc = if s.is .endRoutine then s.bump.move (·.eatLabel) else s
  fields : ∀ r : Reading,
    Ends (stepWhile (fun t => t.role != .braceClose && !t.isRegionEnd)
      (fieldDeclaration doc (dataType doc))) r (r.fields doc (dataType doc))
  portList : ∀ r : Reading, ∃ p,
    Ends (stepPort doc) (none, r.bump) p ∧ r.portList doc = p.2.eat .parenClose
  parameterPortList : ∀ r : Reading, r.bump.is .parenOpen = true → ∃ s,
    Ends (stepWhile listGoesOn (parameterEntry doc)) r.bump.bump s ∧
      r.parameterPortList doc = s.eat .parenClose
  /-- No bracket is closed that was not opened. -/
  skipBalanced : ∀ c : Cursor, c.nextIs (·.isOpen) = true →
    Cursor.skipClosing? 0 c c.rest = some c.skipBalanced
  skipExpression : ∀ c : Cursor,
    Cursor.skipFrom? (fun t => t.role == .comma || t.role == .semicolon || t.isClose ||
      t.isRegionEnd) 0 c c.rest = some c.skipExpression

/-- Readings of whatever document, with whatever tokens, get on. -/
theorem getsOn (doc : Document) : GetsOn doc where
  item := fun _ => reads_item
  item_eq := item_eq
  item_unique := fun _ => eq_item
  dataType_eq := dataType_eq
  dataType_unique := fun _ => eq_dataType
  run := by
    intro r
    have hitem (s : Reading) := (passes_item doc s).ahead
    refine ⟨ends_whileNext _ hitem r, ?_⟩
    have hend := nextIs_whileNext (fun _ => true) hitem r
    cases hrest : (r.run doc).cursor.rest with
    | nil => rfl
    | cons t rest =>
      rw [run] at hrest
      simp [Cursor.nextIs, hrest] at hend
  itemsUntil := fun closing r => ⟨_, ends_whileNext _ (fun s => (passes_item doc s).ahead) r, rfl⟩
  generateBlock := by
    intro r
    refine ⟨_, ends_whileNext _ (fun s => (passes_item doc s).ahead) _, ?_⟩
    have hif (b : Bool) (s : Reading) :
        (if b then s.bump.move (·.eatLabel) else s).cursor =
          if b then s.cursor.bump.eatLabel else s.cursor := by
      cases b <;> rfl
    rw [← hif, generateBlock]
    split <;> rfl
  generateCase := by
    intro r
    have hcase (s : Reading) : Passes doc s (caseItem doc (item doc) s) :=
      passes_caseItem (fun s => (passes_item doc s).leads) s
    exact ⟨_, ends_whileNext _ (fun s => (hcase s).ahead) _, rfl⟩
  routineBody := fun r => ⟨_, ends_whileNext _ (fun s => (passes_routineItem s).ahead) r, rfl⟩
  fields := ends_whileNext _ fun s => (passes_fieldDeclaration leads_dataType s).ahead
  portList := fun r => ⟨_, ends_ports doc r, rfl⟩
  parameterPortList := by
    intro r hopen
    refine ⟨_, ends_whileNext _ (fun s => (passes_parameterEntry s).ahead) r.bump.bump, ?_⟩
    rw [parameterPortList, if_pos hopen]
  skipBalanced := fun _ => Cursor.skipClosing?_eq_skipBalanced
  skipExpression := Cursor.skipFrom?_eq_skipExpression

end Reading

end HdlIndex
