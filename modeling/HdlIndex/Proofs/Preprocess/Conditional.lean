import HdlIndex.Preprocess.Run

/-! Conditional compilation. Documents of plain tokens and properly nested conditionals have a
meaning of their own: in each conditional the first branch whose test holds is selected, otherwise
the last one if it has no test. Scanning works differently: a branch that is not taken is skipped
by counting what opens and closes in it, and a stack remembers which of the open conditionals have
taken a branch. Main statement: a scan writes exactly the selected tokens. -/

namespace HdlIndex

/-- Whether a token is neither a directive nor a use of a definition. -/
def Lexeme.isPlain (t : Lexeme) : Bool := t.kind != .conditional && t.kind != .directive

/-- Whether a token is a given conditional directive. -/
def Lexeme.isConditional (t : Lexeme) (c : Conditional) : Bool :=
  t.kind == .conditional && t.conditional == c

namespace Preprocess

/-! ### Documents -/

/-- A conditional directive with the name behind it, on the same line. -/
structure Guard where
  directive : Lexeme
  /-- What stands between the two. -/
  gap : List Lexeme
  name : Lexeme
  gap_inline : gap.all Lexeme.isInline
  name_identifier : name.kind = .identifier

namespace Guard

def tokens (g : Guard) : List Lexeme := g.directive :: (g.gap ++ [g.name])

/-- Whether the directive opens a conditional. -/
def opens (g : Guard) : Bool :=
  (g.directive.isConditional .ifdef || g.directive.isConditional .ifndef)

/-- Whether the test of the directive holds. -/
def holds (macros : MacroTable) (g : Guard) : Bool :=
  if g.directive.conditional = .ifndef then !macros.contains g.name.text
  else macros.contains g.name.text

end Guard

mutual

/-- Plain tokens and conditionals in a row. -/
inductive Block where
  | nil
  | plain (t : Lexeme) (isPlain : t.isPlain) (rest : Block)
  | chain (guard : Guard) (opens : guard.opens) (body : Block) (tail : Tail) (rest : Block)

/-- What follows the first branch of a conditional. -/
inductive Tail where
  | endif (t : Lexeme) (closes : t.isConditional .endif)
  | otherwise (t : Lexeme) (isElse : t.isConditional .otherwise) (body : Block)
      (close : Lexeme) (closes : close.isConditional .endif)
  | elsif (guard : Guard) (isElsif : guard.directive.isConditional .elsif) (body : Block)
      (tail : Tail)

end

mutual

def Block.tokens : Block → List Lexeme
  | .nil => []
  | .plain t _ rest => t :: rest.tokens
  | .chain guard _ body tail rest => guard.tokens ++ body.tokens ++ tail.tokens ++ rest.tokens

def Tail.tokens : Tail → List Lexeme
  | .endif t _ => [t]
  | .otherwise t _ body close _ => t :: (body.tokens ++ [close])
  | .elsif guard _ body tail => guard.tokens ++ body.tokens ++ tail.tokens

end

mutual

/-- The plain tokens that the definitions in force select. -/
def Block.selected (macros : MacroTable) : Block → List Lexeme
  | .nil => []
  | .plain t _ rest => t :: rest.selected macros
  | .chain guard _ body tail rest =>
    (if guard.holds macros then body.selected macros else tail.selected macros) ++
      rest.selected macros

/-- The plain tokens that are selected if no branch in front is. -/
def Tail.selected (macros : MacroTable) : Tail → List Lexeme
  | .endif _ _ => []
  | .otherwise _ _ body _ _ => body.selected macros
  | .elsif guard _ body tail =>
    if guard.holds macros then body.selected macros else tail.selected macros

end

/-! ### Operands -/

theorem Guard.operand_tokens (g : Guard) (rest : List Lexeme) :
    Item.operand (g.gap ++ g.name :: rest) = (some g.name.text, rest) := by
  have hgap : ∀ t ∈ g.gap, t.isInline = true := List.all_eq_true.1 g.gap_inline
  have hname : g.name.isInline = false := by simp [Lexeme.isInline, g.name_identifier]
  have hskip : Item.skipInline (g.gap ++ g.name :: rest) = g.name :: rest := by
    rw [Item.skipInline, List.dropWhile_append_of_pos hgap, List.dropWhile_cons, hname]
    rfl
  simp [Item.operand, hskip, g.name_identifier]

theorem Guard.test_tokens (macros : MacroTable) (g : Guard) (rest : List Lexeme) :
    Item.test macros g.directive (g.gap ++ g.name :: rest) =
      (macros.contains g.name.text, [], rest) := by
  simp [Item.test, g.operand_tokens]

/-! ### Branches that are not taken -/

theorem skipBranch_of_not_conditional {t : Lexeme} (h : t.kind ≠ .conditional) (nested : Nat)
    (rest : List Lexeme) : Item.skipBranch nested (t :: rest) = Item.skipBranch nested rest := by
  simp [Item.skipBranch, h]

theorem skipBranch_inline {gap : List Lexeme} (h : gap.all Lexeme.isInline) (nested : Nat)
    (rest : List Lexeme) : Item.skipBranch nested (gap ++ rest) = Item.skipBranch nested rest := by
  induction gap with
  | nil => rfl
  | cons t gap ih =>
    rw [List.all_cons, Bool.and_eq_true] at h
    have ht : t.kind ≠ .conditional := by
      intro hk
      simp [Lexeme.isInline, hk] at h
    rw [List.cons_append, skipBranch_of_not_conditional ht, ih h.2]

/-- A directive with its name counts as the directive alone. -/
theorem Guard.skipBranch_tokens (g : Guard) (nested : Nat) (rest : List Lexeme) :
    Item.skipBranch nested (g.gap ++ g.name :: rest) = Item.skipBranch nested rest := by
  rw [skipBranch_inline g.gap_inline, skipBranch_of_not_conditional]
  simp [g.name_identifier]

theorem skipBranch_open {t : Lexeme} (h : t.isConditional .ifdef || t.isConditional .ifndef)
    (nested : Nat) (rest : List Lexeme) :
    Item.skipBranch nested (t :: rest) = Item.skipBranch (nested + 1) rest := by
  simp only [Lexeme.isConditional, Bool.or_eq_true, Bool.and_eq_true, beq_iff_eq] at h
  rcases h with ⟨hk, hc⟩ | ⟨hk, hc⟩ <;> simp [Item.skipBranch, hk, hc]

theorem skipBranch_close {t : Lexeme} (h : t.isConditional .endif) (nested : Nat)
    (rest : List Lexeme) :
    Item.skipBranch (nested + 1) (t :: rest) = Item.skipBranch nested rest := by
  simp only [Lexeme.isConditional, Bool.and_eq_true, beq_iff_eq] at h
  simp [Item.skipBranch, h]

/-- The start of a later branch of an inner conditional changes nothing. -/
theorem skipBranch_inner {t : Lexeme} (h : t.isConditional .elsif || t.isConditional .otherwise)
    (nested : Nat) (rest : List Lexeme) :
    Item.skipBranch (nested + 1) (t :: rest) = Item.skipBranch (nested + 1) rest := by
  simp only [Lexeme.isConditional, Bool.or_eq_true, Bool.and_eq_true, beq_iff_eq] at h
  rcases h with ⟨hk, hc⟩ | ⟨hk, hc⟩ <;> simp [Item.skipBranch, hk, hc]

mutual

/-- A block leaves the count of open conditionals as it is. -/
theorem Block.skipBranch_tokens (b : Block) (nested : Nat) (rest : List Lexeme) :
    Item.skipBranch nested (b.tokens ++ rest) = Item.skipBranch nested rest := by
  match b with
  | .nil => rfl
  | .plain t isPlain b =>
    have ht : t.kind ≠ .conditional := by
      intro hk
      simp [Lexeme.isPlain, hk] at isPlain
    rw [Block.tokens, List.cons_append, skipBranch_of_not_conditional ht, b.skipBranch_tokens]
  | .chain guard opens body tail b =>
    simp only [Block.tokens, Guard.tokens, List.append_assoc, List.cons_append, List.nil_append]
    rw [skipBranch_open opens, guard.skipBranch_tokens, body.skipBranch_tokens,
      tail.skipBranch_tokens, b.skipBranch_tokens]

/-- The rest of a conditional closes it. -/
theorem Tail.skipBranch_tokens (tail : Tail) (nested : Nat) (rest : List Lexeme) :
    Item.skipBranch (nested + 1) (tail.tokens ++ rest) = Item.skipBranch nested rest := by
  match tail with
  | .endif t closes => exact skipBranch_close closes nested rest
  | .otherwise t isElse body close closes =>
    simp only [Tail.tokens, List.append_assoc, List.cons_append, List.nil_append]
    rw [skipBranch_inner (by simp [isElse]), body.skipBranch_tokens, skipBranch_close closes]
  | .elsif guard isElsif body tail =>
    simp only [Tail.tokens, Guard.tokens, List.append_assoc, List.cons_append, List.nil_append]
    rw [skipBranch_inner (by simp [isElsif]), guard.skipBranch_tokens, body.skipBranch_tokens,
      tail.skipBranch_tokens]

end

/-- At the outermost level the rest of a conditional ends the branch in front of it. -/
theorem Tail.skipBranch_zero (tail : Tail) (rest : List Lexeme) :
    Item.skipBranch 0 (tail.tokens ++ rest) = tail.tokens ++ rest := by
  cases tail with
  | endif t closes =>
    simp only [Lexeme.isConditional, Bool.and_eq_true, beq_iff_eq] at closes
    simp [tokens, Item.skipBranch, closes]
  | otherwise t isElse body close closes =>
    simp only [Lexeme.isConditional, Bool.and_eq_true, beq_iff_eq] at isElse
    simp [tokens, Item.skipBranch, isElse]
  | elsif guard isElsif body tail =>
    simp only [Lexeme.isConditional, Bool.and_eq_true, beq_iff_eq] at isElsif
    simp [tokens, Guard.tokens, Item.skipBranch, isElsif]

/-- A branch that is not taken is skipped as a whole. -/
theorem skipBranch_branch (body : Block) (tail : Tail) (rest : List Lexeme) :
    Item.skipBranch 0 (body.tokens ++ (tail.tokens ++ rest)) = tail.tokens ++ rest := by
  rw [body.skipBranch_tokens, tail.skipBranch_zero]

/-! ### Items of a document -/

section Items

variable (macros : MacroTable) (conditions : List Bool)

theorem Guard.conditional_open (g : Guard) (h : g.opens) (rest : List Lexeme) :
    Item.conditional macros conditions g.directive (g.gap ++ g.name :: rest) =
      ⟨[], .conditions (g.holds macros :: conditions),
        if g.holds macros then rest else Item.skipBranch 0 rest⟩ := by
  simp only [Guard.opens, Lexeme.isConditional, Bool.or_eq_true, Bool.and_eq_true,
    beq_iff_eq] at h
  rcases h with ⟨-, hc⟩ | ⟨-, hc⟩ <;>
    simp [Item.conditional, hc, g.test_tokens, Guard.holds]

/-- A later branch is taken if no branch in front was and its test holds. -/
theorem Guard.conditional_elsif (g : Guard) (h : g.directive.isConditional .elsif) (taken : Bool)
    (rest : List Lexeme) :
    Item.conditional macros (taken :: conditions) g.directive (g.gap ++ g.name :: rest) =
      if !taken && g.holds macros then ⟨[], .conditions (true :: conditions), rest⟩
      else ⟨[], .nothing, Item.skipBranch 0 rest⟩ := by
  simp only [Lexeme.isConditional, Bool.and_eq_true, beq_iff_eq] at h
  simp [Item.conditional, h.2, g.test_tokens, Guard.holds]

theorem conditional_else {t : Lexeme} (h : t.isConditional .otherwise) (taken : Bool)
    (rest : List Lexeme) :
    Item.conditional macros (taken :: conditions) t rest =
      if taken then ⟨[], .nothing, Item.skipBranch 0 rest⟩
      else ⟨[], .conditions (true :: conditions), rest⟩ := by
  simp only [Lexeme.isConditional, Bool.and_eq_true, beq_iff_eq] at h
  cases taken <;> simp [Item.conditional, h.2]

theorem conditional_endif {t : Lexeme} (h : t.isConditional .endif) (taken : Bool)
    (rest : List Lexeme) :
    Item.conditional macros (taken :: conditions) t rest = ⟨[], .conditions conditions, rest⟩ := by
  simp only [Lexeme.isConditional, Bool.and_eq_true, beq_iff_eq] at h
  simp [Item.conditional, h.2]

end Items

/-! ### The scan -/

/-- A file to whose output tokens of its own were written. -/
def FileState.emit (st : FileState) (file : String) (tokens : List Lexeme) : FileState :=
  { st with out := tokens.foldl (fun out t => out.push file ⟨t.text, t.start, t.stop⟩) st.out }

theorem FileState.emit_append (st : FileState) (file : String) (a b : List Lexeme) :
    st.emit file (a ++ b) = (st.emit file a).emit file b := by
  simp [emit, List.foldl_append]

section Scan

variable (env : Env) (nested : Option Process) (chain : List Path) (file text : String)

/-- An item without problems is done, and the scan goes on behind it. -/
theorem scan_item {st : FileState} {run : RunState} {t : Lexeme} {rest behind : List Lexeme}
    {effect : Effect}
    (h : Item.read (run.expansionEnv env.options.limits) st.conditions t rest =
      ⟨[], effect, behind⟩) :
    scan env nested chain file text st run (t :: rest) =
      scan env nested chain file text (applyEffect env nested chain file text st run effect).1
        (applyEffect env nested chain file text st run effect).2 behind := by
  rw [scan, h]
  simp only [List.append_nil]

theorem read_conditional {t : Lexeme} {c : Conditional} (h : t.isConditional c)
    (expansion : Expansion.Env) (conditions : List Bool) (rest : List Lexeme) :
    Item.read expansion conditions t rest =
      Item.conditional expansion.macros conditions t rest := by
  simp only [Lexeme.isConditional, Bool.and_eq_true, beq_iff_eq] at h
  rw [Item.read, h.1]

theorem scan_conditions {st : FileState} {run : RunState} {t : Lexeme} {c : Conditional}
    (hc : t.isConditional c) {rest behind : List Lexeme} {conditions : List Bool}
    (h : Item.conditional run.macros st.conditions t rest =
      ⟨[], .conditions conditions, behind⟩) :
    scan env nested chain file text st run (t :: rest) =
      scan env nested chain file text { st with conditions } run behind :=
  scan_item env nested chain file text ((read_conditional hc _ _ _).trans h)

theorem scan_nothing {st : FileState} {run : RunState} {t : Lexeme} {c : Conditional}
    (hc : t.isConditional c) {rest behind : List Lexeme}
    (h : Item.conditional run.macros st.conditions t rest = ⟨[], .nothing, behind⟩) :
    scan env nested chain file text st run (t :: rest) =
      scan env nested chain file text st run behind :=
  scan_item env nested chain file text ((read_conditional hc _ _ _).trans h)

theorem scan_plain {st : FileState} {run : RunState} {t : Lexeme} (h : t.isPlain)
    (rest : List Lexeme) :
    scan env nested chain file text st run (t :: rest) =
      scan env nested chain file text (st.emit file [t]) run rest := by
  have hread : Item.read (run.expansionEnv env.options.limits) st.conditions t rest =
      ⟨[], .emit t, rest⟩ := by
    simp only [Lexeme.isPlain, Bool.and_eq_true, bne_iff_ne] at h
    rw [Item.read]
    split
    · exact absurd ‹_› h.1
    · exact absurd ‹_› h.2
    · rfl
  exact scan_item env nested chain file text hread

mutual

/-- A block writes what is selected in it, whatever conditionals are open around it. -/
theorem Block.scan_tokens (b : Block) (st : FileState) (run : RunState) (rest : List Lexeme) :
    scan env nested chain file text st run (b.tokens ++ rest) =
      scan env nested chain file text (st.emit file (b.selected run.macros)) run rest := by
  match b with
  | .nil => rfl
  | .plain t isPlain b =>
    rw [Block.tokens, List.cons_append, scan_plain env nested chain file text isPlain,
      b.scan_tokens, ← FileState.emit_append]
    rfl
  | .chain guard opens body tail b =>
    obtain ⟨c, hc⟩ : ∃ c, guard.directive.isConditional c := by
      rcases Bool.or_eq_true_iff.1 opens with h | h
      · exact ⟨_, h⟩
      · exact ⟨_, h⟩
    simp only [Block.tokens, Guard.tokens, List.append_assoc, List.cons_append, List.nil_append]
    rw [scan_conditions env nested chain file text hc
      (guard.conditional_open run.macros st.conditions opens _)]
    by_cases holds : guard.holds run.macros
    · rw [if_pos holds, body.scan_tokens, tail.scan_tokens (guard.holds run.macros) st.conditions
        _ run _ rfl, b.scan_tokens, Block.selected, if_pos holds, if_pos holds,
        FileState.emit_append]
      rfl
    · rw [if_neg holds, skipBranch_branch, tail.scan_tokens (guard.holds run.macros) st.conditions
        _ run _ rfl, b.scan_tokens, Block.selected, if_neg holds, if_neg holds,
        FileState.emit_append]
      rfl

/-- The rest of a conditional closes it, and writes what is selected in it if no branch was taken
before. -/
theorem Tail.scan_tokens (tail : Tail) (taken : Bool) (outer : List Bool) (st : FileState)
    (run : RunState) (rest : List Lexeme) (h : st.conditions = taken :: outer) :
    scan env nested chain file text st run (tail.tokens ++ rest) =
      scan env nested chain file text
        { st.emit file (if taken then [] else tail.selected run.macros) with conditions := outer }
        run rest := by
  match tail with
  | .endif t closes =>
    rw [Tail.tokens, List.singleton_append, scan_conditions env nested chain file text closes
      (by rw [h]; exact conditional_endif run.macros outer closes taken rest)]
    cases taken <;> rfl
  | .otherwise t isElse body close closes =>
    have hend (taken : Bool) (st : FileState) (h : st.conditions = taken :: outer) :
        scan env nested chain file text st run (close :: rest) =
          scan env nested chain file text { st with conditions := outer } run rest :=
      scan_conditions env nested chain file text closes
        (by rw [h]; exact conditional_endif run.macros outer closes taken rest)
    have helse := conditional_else run.macros outer isElse taken (body.tokens ++ close :: rest)
    rw [← h] at helse
    simp only [Tail.tokens, List.append_assoc, List.cons_append, List.nil_append]
    cases taken with
    | true =>
      have hskip := skipBranch_branch body (.endif close closes) rest
      rw [Tail.tokens, List.singleton_append] at hskip
      rw [scan_nothing env nested chain file text isElse helse, hskip, hend true st h]
      rfl
    | false =>
      rw [scan_conditions env nested chain file text isElse helse, body.scan_tokens,
        hend true _ rfl]
      rfl
  | .elsif guard isElsif body tail =>
    have hitem := guard.conditional_elsif run.macros outer isElsif taken
      (body.tokens ++ (tail.tokens ++ rest))
    rw [← h] at hitem
    simp only [Tail.tokens, Guard.tokens, List.append_assoc, List.cons_append, List.nil_append]
    by_cases hb : !taken && guard.holds run.macros
    · rw [if_pos hb] at hitem
      simp only [Bool.and_eq_true, Bool.not_eq_true'] at hb
      rw [scan_conditions env nested chain file text isElsif hitem, body.scan_tokens,
        tail.scan_tokens true outer _ run rest rfl, Tail.selected, if_pos hb.2, hb.1]
      rfl
    · rw [if_neg hb, skipBranch_branch] at hitem
      rw [scan_nothing env nested chain file text isElsif hitem,
        tail.scan_tokens taken outer st run rest h, Tail.selected]
      cases taken with
      | true => rfl
      | false =>
        rw [if_neg (show ¬guard.holds run.macros from by simpa using hb)]

end

end Scan

/-! ### Documents -/

theorem FileState.tokens_emit (st : FileState) (file : String) (tokens : List Lexeme) :
    (st.emit file tokens).out.stream.tokens.toList =
      st.out.stream.tokens.toList ++ tokens.map fun t => ⟨t.text, t.start, t.stop⟩ := by
  induction tokens generalizing st with
  | nil => simp [emit]
  | cons t tokens ih =>
    rw [← List.singleton_append, emit_append, ih]
    simp [emit, Emitter.push]

/-- Conditional compilation is correct: a scan of a document of plain tokens and properly nested
conditionals, with no conditional open in front, writes exactly the tokens that are selected, in
their order and with their extents. No conditional is open behind it, nothing else of the file has
changed, and neither has anything that files share: no definition, no problem. -/
theorem scan_document (env : Env) (nested : Option Process) (chain : List Path)
    (file text : String) (st : FileState) (run : RunState) (doc : Block) :
    let (after, run') :=
      scan env nested chain file text { st with conditions := [] } run doc.tokens
    after.out.stream.tokens.toList = st.out.stream.tokens.toList ++
        (doc.selected run.macros).map (fun t => (⟨t.text, t.start, t.stop⟩ : PostToken)) ∧
      after.conditions = [] ∧ after = { st with out := after.out, conditions := [] } ∧
      run' = run := by
  have h := doc.scan_tokens env nested chain file text { st with conditions := [] } run []
  rw [List.append_nil, scan] at h
  rw [h]
  exact ⟨FileState.tokens_emit _ file _, rfl, rfl, rfl⟩

end Preprocess

end HdlIndex
