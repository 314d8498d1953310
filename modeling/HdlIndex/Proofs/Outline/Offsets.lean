import HdlIndex.Proofs.Outline.Moves

/-! Moves of a cursor do not look at offsets: they go by the roles and the texts of the tokens, and
where the tokens stand is only carried along. Main statement: every move commutes with a change of
all offsets. -/

namespace HdlIndex

/-- How often a step can be taken depends on the length of the bound alone. -/
theorem iterate_map {σ α β : Type} (step : σ → Option σ) (f : α → β) (bound : List α) (s : σ) :
    iterate step (bound.map f) s = iterate step bound s := by
  induction bound generalizing s with
  | nil => rfl
  | cons _ bound ih =>
    rw [List.map_cons, iterate, iterate]
    split
    · rfl
    · exact ih _

/-- What commutes with every step commutes with the repetition. -/
theorem iterate_comm {σ τ α : Type} {step : σ → Option σ} {step' : τ → Option τ} (f : σ → τ)
    (h : ∀ s, step' (f s) = (step s).map f) (bound : List α) (s : σ) :
    iterate step' bound (f s) = f (iterate step bound s) := by
  induction bound generalizing s with
  | nil => rfl
  | cons _ bound ih =>
    rw [iterate, iterate, h]
    cases step s with
    | none => rfl
    | some t => exact ih t

namespace OutlineToken

/-- The token at other offsets. -/
def mapOffsets (f : Nat → Nat) (t : OutlineToken) : OutlineToken :=
  { t with start := f t.start, stop := f t.stop }

variable (f : Nat → Nat) (t : OutlineToken)

@[simp]
theorem mapOffsets_text : (t.mapOffsets f).text = t.text := rfl

@[simp]
theorem mapOffsets_role : (t.mapOffsets f).role = t.role := rfl

@[simp]
theorem mapOffsets_start : (t.mapOffsets f).start = f t.start := rfl

@[simp]
theorem mapOffsets_stop : (t.mapOffsets f).stop = f t.stop := rfl

@[simp]
theorem isRegionEnd_mapOffsets : (t.mapOffsets f).isRegionEnd = t.isRegionEnd := rfl

@[simp]
theorem nest_mapOffsets (depth : Nat) : (t.mapOffsets f).nest depth = t.nest depth := rfl

@[simp]
theorem nestBlock_mapOffsets (opening closing : Role) (depth : Nat) :
    (t.mapOffsets f).nestBlock opening closing depth = t.nestBlock opening closing depth := rfl

theorem mapOffsets_id : t.mapOffsets id = t := rfl

/-- Whether a test of tokens does not look at offsets. -/
def IgnoresOffsets (test : OutlineToken → Bool) : Prop :=
  ∀ f t, test (mapOffsets f t) = test t

end OutlineToken

namespace Cursor

open OutlineToken (IgnoresOffsets)

/-- The place in the same tokens at other offsets. -/
def mapOffsets (f : Nat → Nat) (c : Cursor) : Cursor :=
  ⟨c.pos, f c.stop, c.rest.map (·.mapOffsets f)⟩

variable (f : Nat → Nat) (c : Cursor)

@[simp]
theorem mapOffsets_pos : (c.mapOffsets f).pos = c.pos := rfl

@[simp]
theorem mapOffsets_stop : (c.mapOffsets f).stop = f c.stop := rfl

@[simp]
theorem mapOffsets_rest : (c.mapOffsets f).rest = c.rest.map (·.mapOffsets f) := rfl

@[simp]
theorem mapOffsets_id : c.mapOffsets id = c := by
  have hid : OutlineToken.mapOffsets id = id := funext OutlineToken.mapOffsets_id
  rw [mapOffsets, hid, List.map_id]
  rfl

/-! ### Looking -/

theorem nextIs_mapOffsets {test : OutlineToken → Bool} (h : IgnoresOffsets test) :
    (c.mapOffsets f).nextIs test = c.nextIs test := by
  rw [nextIs, nextIs, mapOffsets_rest]
  cases c.rest with
  | nil => rfl
  | cons t _ => exact h f t

@[simp]
theorem is_mapOffsets (role : Role) : (c.mapOffsets f).is role = c.is role :=
  c.nextIs_mapOffsets f fun _ _ => rfl

@[simp]
theorem isText_mapOffsets (text : String) : (c.mapOffsets f).isText text = c.isText text :=
  c.nextIs_mapOffsets f fun _ _ => rfl

@[simp]
theorem nthIs_mapOffsets (n : Nat) (role : Role) :
    (c.mapOffsets f).nthIs n role = c.nthIs n role := by
  rw [nthIs, nthIs, mapOffsets_rest, List.getElem?_map]
  cases c.rest[n]? <;> rfl

@[simp]
theorem identifier?_mapOffsets :
    (c.mapOffsets f).identifier? = c.identifier?.map (·.mapOffsets f) := by
  rw [identifier?, identifier?, mapOffsets_rest, List.head?_map]
  cases c.rest.head? with
  | none => rfl
  | some t =>
    rw [Option.map_some, Option.filter_some, Option.filter_some, OutlineToken.mapOffsets_role,
      apply_ite (Option.map _)]
    rfl

@[simp]
theorem nextText_mapOffsets : (c.mapOffsets f).nextText = c.nextText := by
  rw [nextText, nextText, mapOffsets_rest]
  cases c.rest <;> rfl

@[simp]
theorem nextStart_mapOffsets : (c.mapOffsets f).nextStart = f c.nextStart := by
  rw [nextStart, nextStart, mapOffsets_rest]
  cases c.rest <;> rfl

/-! ### Moves -/

theorem ite_mapOffsets (b : Bool) (d : Cursor) :
    (if b then c.mapOffsets f else d.mapOffsets f) = (if b then c else d).mapOffsets f := by
  cases b <;> rfl

@[simp]
theorem bump_mapOffsets : (c.mapOffsets f).bump = c.bump.mapOffsets f := by
  obtain ⟨pos, stop, rest⟩ := c
  cases rest <;> rfl

@[simp]
theorem eat_mapOffsets (role : Role) : (c.mapOffsets f).eat role = (c.eat role).mapOffsets f := by
  simp only [eat, is_mapOffsets, bump_mapOffsets, ite_mapOffsets]

@[simp]
theorem eatText_mapOffsets (text : String) :
    (c.mapOffsets f).eatText text = (c.eatText text).mapOffsets f := by
  simp only [eatText, isText_mapOffsets, bump_mapOffsets, ite_mapOffsets]

@[simp]
theorem label?_mapOffsets : (c.mapOffsets f).label? = c.label?.map (·.mapOffsets f) := by
  simp only [label?, is_mapOffsets, bump_mapOffsets, identifier?_mapOffsets]
  split <;> rfl

@[simp]
theorem eatLabel_mapOffsets : (c.mapOffsets f).eatLabel = c.eatLabel.mapOffsets f := by
  simp only [eatLabel, label?_mapOffsets, Option.isSome_map, bump_mapOffsets, ite_mapOffsets]

/-! ### Stretches -/

theorem skipFrom_mapOffsets {stop : OutlineToken → Bool} (h : IgnoresOffsets stop) (depth : Nat)
    (tokens : List OutlineToken) :
    skipFrom stop depth (c.mapOffsets f) (tokens.map (·.mapOffsets f)) =
      (skipFrom stop depth c tokens).mapOffsets f := by
  induction tokens generalizing depth c with
  | nil => rfl
  | cons t rest ih =>
    rw [List.map_cons, skipFrom, skipFrom, h f t]
    split
    · rfl
    · exact ih ⟨c.pos + 1, t.stop, rest⟩ (t.nest depth)

theorem skipUntil_mapOffsets {stop : OutlineToken → Bool} (h : IgnoresOffsets stop) :
    (c.mapOffsets f).skipUntil stop = (c.skipUntil stop).mapOffsets f :=
  c.skipFrom_mapOffsets f h 0 c.rest

theorem lastOutside_mapOffsets {stop mark : OutlineToken → Bool} (hstop : IgnoresOffsets stop)
    (hmark : IgnoresOffsets mark) (depth : Nat) (found : Option OutlineToken)
    (tokens : List OutlineToken) :
    lastOutside stop mark depth (found.map (·.mapOffsets f)) (tokens.map (·.mapOffsets f)) =
      (lastOutside stop mark depth found tokens).map (·.mapOffsets f) := by
  induction tokens generalizing depth found with
  | nil => rfl
  | cons t rest ih =>
    rw [List.map_cons, lastOutside, lastOutside, hstop f t, hmark f t, OutlineToken.nest_mapOffsets]
    split
    · rfl
    · rw [← ih]
      congr 1
      split <;> rfl

@[simp]
theorem skipBalanced_mapOffsets : (c.mapOffsets f).skipBalanced = c.skipBalanced.mapOffsets f := by
  have hclosing (tokens : List OutlineToken) (depth : Nat) (c : Cursor) :
      skipClosing depth (c.mapOffsets f) (tokens.map (·.mapOffsets f)) =
        (skipClosing depth c tokens).mapOffsets f := by
    induction tokens generalizing depth c with
    | nil => rfl
    | cons t rest ih =>
      rw [List.map_cons, skipClosing, skipClosing, OutlineToken.nest_mapOffsets]
      split
      · rfl
      · exact ih (t.nest depth) ⟨c.pos + 1, t.stop, rest⟩
  rw [skipBalanced, skipBalanced, c.nextIs_mapOffsets f fun _ _ => rfl, mapOffsets_rest, hclosing,
    ite_mapOffsets]

@[simp]
theorem skipGroup_mapOffsets : (c.mapOffsets f).skipGroup = c.skipGroup.mapOffsets f := by
  rw [skipGroup, skipGroup, c.nextIs_mapOffsets f fun _ _ => rfl, skipBalanced_mapOffsets,
    bump_mapOffsets, ite_mapOffsets]

@[simp]
theorem skipToSemicolon_mapOffsets :
    (c.mapOffsets f).skipToSemicolon = c.skipToSemicolon.mapOffsets f := by
  rw [skipToSemicolon, c.skipUntil_mapOffsets f fun _ _ => rfl, eat_mapOffsets]
  rfl

@[simp]
theorem skipExpression_mapOffsets :
    (c.mapOffsets f).skipExpression = c.skipExpression.mapOffsets f :=
  c.skipUntil_mapOffsets f fun _ _ => rfl

@[simp]
theorem skipDimensions_mapOffsets :
    (c.mapOffsets f).skipDimensions = c.skipDimensions.mapOffsets f :=
  c.skipUntil_mapOffsets f fun _ _ => rfl

@[simp]
theorem skipPackedDimensions_mapOffsets :
    (c.mapOffsets f).skipPackedDimensions = c.skipPackedDimensions.mapOffsets f :=
  c.skipUntil_mapOffsets f fun _ _ => rfl

theorem skipWhile_mapOffsets {test : OutlineToken → Bool} (h : IgnoresOffsets test) :
    (c.mapOffsets f).skipWhile test = (c.skipWhile test).mapOffsets f := by
  rw [skipWhile, mapOffsets_rest, iterate_map]
  refine iterate_comm (mapOffsets f) (fun d => ?_) c.rest c
  rw [d.nextIs_mapOffsets f h, bump_mapOffsets]
  split <;> rfl

@[simp]
theorem skipBlock_mapOffsets (opening closing : Role) :
    (c.mapOffsets f).skipBlock opening closing = (c.skipBlock opening closing).mapOffsets f := by
  have hfrom (tokens : List OutlineToken) (depth : Nat) (c : Cursor) :
      skipBlockFrom opening closing depth (c.mapOffsets f) (tokens.map (·.mapOffsets f)) =
        (skipBlockFrom opening closing depth c tokens).mapOffsets f := by
    induction tokens generalizing depth c with
    | nil => rfl
    | cons t rest ih =>
      rw [List.map_cons, skipBlockFrom, skipBlockFrom, OutlineToken.nestBlock_mapOffsets]
      split
      · rfl
      · exact ih (t.nestBlock opening closing depth) ⟨c.pos + 1, t.stop, rest⟩
  exact hfrom c.rest 0 c

@[simp]
theorem skipPast_mapOffsets (text : String) :
    (c.mapOffsets f).skipPast text = (c.skipPast text).mapOffsets f := by
  rw [skipPast, c.skipWhile_mapOffsets f fun _ _ => rfl, bump_mapOffsets]
  rfl

/-! ### Declared names and types -/

@[simp]
theorem skipPackages_mapOffsets : (c.mapOffsets f).skipPackages = c.skipPackages.mapOffsets f := by
  rw [skipPackages, mapOffsets_rest, iterate_map]
  refine iterate_comm (mapOffsets f) (fun d => ?_) c.rest c
  simp only [is_mapOffsets, bump_mapOffsets, eat_mapOffsets]
  split <;> rfl

@[simp]
theorem skipModport_mapOffsets : (c.mapOffsets f).skipModport = c.skipModport.mapOffsets f := by
  simp only [skipModport, is_mapOffsets, nthIs_mapOffsets, bump_mapOffsets, ite_mapOffsets]

@[simp]
theorem skipTypeReference_mapOffsets :
    (c.mapOffsets f).skipTypeReference = c.skipTypeReference.mapOffsets f := by
  have hpath (bound : List OutlineToken) (c : Cursor) :
      (c.mapOffsets f).skipTypePath (bound.map (·.mapOffsets f)) =
        (c.skipTypePath bound).mapOffsets f := by
    induction bound generalizing c with
    | nil => rfl
    | cons _ bound ih =>
      simp only [List.map_cons, skipTypePath, skipPackages_mapOffsets, is_mapOffsets,
        bump_mapOffsets, nthIs_mapOffsets, skipBalanced_mapOffsets, ite_mapOffsets, ih,
        skipModport_mapOffsets]
  exact hpath c.rest c

@[simp]
theorem skipDeclarator_mapOffsets :
    (c.mapOffsets f).skipDeclarator = c.skipDeclarator.mapOffsets f := by
  simp only [skipDeclarator, skipDimensions_mapOffsets, is_mapOffsets, bump_mapOffsets,
    skipExpression_mapOffsets, ite_mapOffsets]

@[simp]
theorem skipTypeLead_mapOffsets : (c.mapOffsets f).skipTypeLead = c.skipTypeLead.mapOffsets f := by
  simp only [skipTypeLead, eatText_mapOffsets, is_mapOffsets, bump_mapOffsets,
    skipBalanced_mapOffsets, ite_mapOffsets]
  exact skipWhile_mapOffsets f _ fun _ _ => rfl

@[simp]
theorem skipTypeName_mapOffsets : (c.mapOffsets f).skipTypeName = c.skipTypeName.mapOffsets f := by
  simp only [skipTypeName, is_mapOffsets, isText_mapOffsets, nthIs_mapOffsets, bump_mapOffsets,
    skipTypeReference_mapOffsets, skipDimensions_mapOffsets, skipBalanced_mapOffsets,
    ite_mapOffsets]

/-! ### Statements -/

theorem statementLead?_mapOffsets :
    (c.mapOffsets f).statementLead? = c.statementLead?.map (·.mapOffsets f) := by
  simp only [statementLead?, mapOffsets_rest, nthIs_mapOffsets, bump_mapOffsets,
    skipGroup_mapOffsets]
  cases c.rest with
  | nil => rfl
  | cons t _ =>
    simp only [List.map_cons, OutlineToken.mapOffsets_role, OutlineToken.mapOffsets_text,
      apply_ite (Option.map _), Option.map_some, Option.map_none]
    rfl

@[simp]
theorem skipStatementLeads_mapOffsets :
    (c.mapOffsets f).skipStatementLeads = c.skipStatementLeads.mapOffsets f := by
  rw [skipStatementLeads, mapOffsets_rest, iterate_map]
  exact iterate_comm (mapOffsets f) (statementLead?_mapOffsets f) c.rest c

@[simp]
theorem afterCheck_mapOffsets : (c.mapOffsets f).afterCheck = c.afterCheck := by
  simp only [afterCheck, isText_mapOffsets]

theorem controlHead_mapOffsets (word : String) :
    (c.mapOffsets f).controlHead word =
      ((c.controlHead word).1.mapOffsets f, (c.controlHead word).2) := by
  unfold controlHead
  split
  case h_8 =>
    simp only [is_mapOffsets, bump_mapOffsets, eat_mapOffsets, skipBalanced_mapOffsets]
    split <;> rfl
  all_goals simp only [skipBalanced_mapOffsets, afterCheck_mapOffsets, skipToSemicolon_mapOffsets]

theorem assertionHead_mapOffsets :
    (c.mapOffsets f).assertionHead =
      (c.assertionHead.1.mapOffsets f, c.assertionHead.2) := by
  simp only [assertionHead, is_mapOffsets, isText_mapOffsets, bump_mapOffsets, ite_mapOffsets,
    skipBalanced_mapOffsets, afterCheck_mapOffsets]

theorem statementHead?_mapOffsets :
    (c.mapOffsets f).statementHead? =
      c.statementHead?.map fun (next, tasks) => (next.mapOffsets f, tasks) := by
  simp only [statementHead?, mapOffsets_rest, bump_mapOffsets, skipBlock_mapOffsets,
    eatLabel_mapOffsets, assertionHead_mapOffsets, controlHead_mapOffsets,
    skipToSemicolon_mapOffsets]
  cases c.rest with
  | nil => rfl
  | cons t _ =>
    rw [List.map_cons]
    dsimp only
    rw [OutlineToken.isRegionEnd_mapOffsets, OutlineToken.mapOffsets_role]
    by_cases hend : t.isRegionEnd = true
    · rw [if_pos hend, if_pos hend]
      rfl
    · rw [if_neg hend, if_neg hend, Option.map_some]
      split <;> rfl

theorem finish_mapOffsets (tasks : List Pending) :
    (c.mapOffsets f).finish tasks = (c.finish tasks).mapOffsets f := by
  induction c, tasks using Cursor.finish.induct with
  | case1 c => simp only [finish]
  | case2 c tasks helse ih =>
    rw [finish, finish, isText_mapOffsets, if_pos helse, if_pos helse, bump_mapOffsets, ih]
  | case3 c tasks helse ih =>
    rw [finish, finish, isText_mapOffsets, if_neg helse, if_neg helse, ih]
  | case4 c tasks hwhile ih =>
    rw [finish, finish, isText_mapOffsets, if_pos hwhile, if_pos hwhile, bump_mapOffsets,
      skipBalanced_mapOffsets, eat_mapOffsets, ih]
  | case5 c tasks hwhile ih =>
    rw [finish, finish, isText_mapOffsets, if_neg hwhile, if_neg hwhile, ih]
  | case6 c tasks hnone =>
    have hnone' : (c.mapOffsets f).skipStatementLeads.statementHead? = none := by
      rw [skipStatementLeads_mapOffsets, statementHead?_mapOffsets, hnone, Option.map_none]
    rw [finish_of_none hnone, finish_of_none hnone', skipStatementLeads_mapOffsets]
  | case7 c tasks next more hsome ih =>
    have hsome' : (c.mapOffsets f).skipStatementLeads.statementHead? =
        some (next.mapOffsets f, more) := by
      rw [skipStatementLeads_mapOffsets, statementHead?_mapOffsets, hsome, Option.map_some]
    rw [finish_of_some hsome, finish_of_some hsome', ih]

@[simp]
theorem skipStatement_mapOffsets : (c.mapOffsets f).skipStatement = c.skipStatement.mapOffsets f :=
  c.finish_mapOffsets f _

/-! ### Where moves can lead -/

/-- Whether a move does not look at offsets. -/
def Commutes (move : Cursor → Cursor) : Prop :=
  ∀ f c, move (mapOffsets f c) = (move c).mapOffsets f

/-- Whether all offsets that are left have a property, and where the last token read stops. -/
structure Stands (P : Nat → Prop) (c : Cursor) : Prop where
  stop : P c.stop
  tokens : ∀ t ∈ c.rest, P t.start ∧ P t.stop

variable {P : Nat → Prop} {f c}

theorem Stands.nextStart (h : c.Stands P) : P c.nextStart := by
  rw [Cursor.nextStart]
  split
  · exact h.stop
  · next t rest hrest => exact (h.tokens t (hrest ▸ List.mem_cons_self)).1

theorem stands_mapOffsets (h : ∀ n, P (f n)) : (c.mapOffsets f).Stands P where
  stop := h _
  tokens := by
    rw [mapOffsets_rest]
    exact List.forall_mem_map.2 fun t _ => ⟨h _, h _⟩

theorem mapOffsets_eq_self (h : c.Stands fun n => f n = n) : c.mapOffsets f = c := by
  have hrest : c.rest.map (·.mapOffsets f) = c.rest := by
    refine (List.map_congr_left fun t ht => ?_).trans (List.map_id c.rest)
    obtain ⟨hstart, hstop⟩ := h.tokens t ht
    rw [OutlineToken.mapOffsets, hstart, hstop]
    rfl
  rw [mapOffsets, hrest, h.stop]

open Classical in
/-- A move that does not look at offsets comes up with no new ones: if all others are changed to one
of the old, it does not notice. -/
theorem Stands.of_commutes {move : Cursor → Cursor} (h : c.Stands P) (hmove : Commutes move) :
    (move c).Stands P := by
  let g (n : Nat) : Nat := if P n then n else c.stop
  have hg (n : Nat) : P (g n) := by
    by_cases hn : P n
    · simp [g, hn]
    · simpa [g, hn] using h.stop
  have hkeep {n : Nat} (hn : P n) : g n = n := if_pos hn
  have hsame : c.mapOffsets g = c := mapOffsets_eq_self
    ⟨hkeep h.stop, fun t ht => ⟨hkeep (h.tokens t ht).1, hkeep (h.tokens t ht).2⟩⟩
  rw [← hsame, hmove g c]
  exact stands_mapOffsets hg

end Cursor

end HdlIndex
