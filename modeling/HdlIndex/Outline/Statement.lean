import HdlIndex.Outline.Cursor

/-! Skipping statements. Procedural code is not read; all that counts is where a statement
ends. A keyword of control tells how many statements follow it, and what is still to follow is
kept as a list of tasks, so nesting of any depth needs no recursion of its own. -/

namespace HdlIndex

/-- What is still to be read before a statement has ended. -/
inductive Pending where
  | statement
  /-- An `else` with its statement, if there is one. -/
  | alternative
  /-- The `while (...);` that closes a `do` loop. -/
  | loopEnd
  deriving DecidableEq, Repr

namespace Cursor

/-- Reads one thing that can stand in front of a statement: a label, an event control, a delay
or a qualifier of a choice. -/
def statementLead? (c : Cursor) : Option Cursor :=
  match c.rest with
  | [] => none
  | t :: _ =>
    if t.role == .identifier && c.nthIs 1 .colon then some c.bump.bump
    else if t.role == .eventAt || t.role == .hash || t.text == "##" then some c.bump.skipGroup
    else if t.role == .control && ["unique", "unique0", "priority"].contains t.text then some c.bump
    else none

def skipStatementLeads (c : Cursor) : Cursor := iterate statementLead? c.rest c

/-- What follows a check: a statement, which may be left out in front of an `else`, and an
alternative. -/
def afterCheck (c : Cursor) : List Pending :=
  if c.isText "else" then [.alternative] else [.statement, .alternative]

/-- Reads what belongs to a keyword of control, which has been read. The second result is what
has to follow. -/
def controlHead (c : Cursor) : String → Cursor × List Pending
  | "if" => (c.skipBalanced, [.statement, .alternative])
  | "for" | "foreach" | "while" | "repeat" => (c.skipBalanced, [.statement])
  | "forever" => (c, [.statement])
  | "do" => (c, [.statement, .loopEnd])
  | "wait" => if c.is .fork then (c.bump.eat .semicolon, []) else (c.skipBalanced, [.statement])
  | "wait_order" => (c.skipBalanced, c.skipBalanced.afterCheck)
  | _ => (c.skipToSemicolon, [])

/-- Reads what belongs to a keyword of an assertion, which has been read: `property`, `final` or
a delay of zero, and the asserted expression. -/
def assertionHead (c : Cursor) : Cursor × List Pending :=
  let c :=
    if c.is .construct || c.isText "final" then c.bump
    else if c.is .hash then c.bump.bump
    else c
  (c.skipBalanced, c.skipBalanced.afterCheck)

/-- Reads the head of a statement, in front of which all leads have been read. The second result
is what has to follow. There is no statement in front of the end of a region. -/
def statementHead? (c : Cursor) : Option (Cursor × List Pending) :=
  match c.rest with
  | [] => none
  | t :: _ =>
    if t.isRegionEnd then none
    else
      some <| match t.role with
        | .semicolon => (c.bump, [])
        | .blockBegin => ((c.skipBlock .blockBegin .blockEnd).eatLabel, [])
        | .fork => ((c.skipBlock .fork .join).eatLabel, [])
        | .caseBegin => (c.skipBlock .caseBegin .caseEnd, [])
        | .assertion => c.bump.assertionHead
        | .control => c.bump.controlHead t.text
        | _ => (c.skipToSemicolon, [])

/-! ### Statements get shorter -/

theorem left_statementLead?_le {c c' : Cursor} (h : c.statementLead? = some c') :
    c'.left ≤ c.left := by
  unfold statementLead? at h
  split at h
  · simp at h
  · split at h
    · obtain rfl := Option.some.inj h
      exact Nat.le_trans c.bump.left_bump_le c.left_bump_le
    · split at h
      · obtain rfl := Option.some.inj h
        exact Nat.le_trans c.bump.left_skipGroup_le c.left_bump_le
      · split at h
        · obtain rfl := Option.some.inj h
          exact c.left_bump_le
        · simp at h

theorem left_skipStatementLeads_le (c : Cursor) : c.skipStatementLeads.left ≤ c.left :=
  iterate_induction (P := fun c' : Cursor => c'.left ≤ c.left)
    (fun _ _ hs h => Nat.le_trans (left_statementLead?_le h) hs) c.rest c (Nat.le_refl _)

theorem left_skipToSemicolon_le (c : Cursor) : c.skipToSemicolon.left ≤ c.left :=
  Nat.le_trans (left_eat_le _ _) (left_skipFrom_le _ _ _ _)

theorem left_controlHead_le (c : Cursor) (word : String) :
    (c.controlHead word).1.left ≤ c.left := by
  have balanced := c.left_skipBalanced_le
  unfold controlHead
  split
  · exact balanced
  · exact balanced
  · exact balanced
  · exact balanced
  · exact balanced
  · exact Nat.le_refl _
  · exact Nat.le_refl _
  · split
    · exact Nat.le_trans (c.bump.left_eat_le .semicolon) c.left_bump_le
    · exact balanced
  · exact balanced
  · exact c.left_skipToSemicolon_le

theorem length_afterCheck_le (c : Cursor) : c.afterCheck.length ≤ 2 := by
  unfold afterCheck
  split <;> simp

theorem length_controlHead_le (c : Cursor) (word : String) :
    (c.controlHead word).2.length ≤ 2 := by
  unfold controlHead
  split
  case h_9 => exact length_afterCheck_le _
  case h_8 => split <;> simp
  all_goals simp

theorem left_assertionHead_le (c : Cursor) : c.assertionHead.1.left ≤ c.left := by
  unfold assertionHead
  refine Nat.le_trans (left_skipBalanced_le _) ?_
  split
  · exact c.left_bump_le
  · split
    · exact Nat.le_trans c.bump.left_bump_le c.left_bump_le
    · exact Nat.le_refl _

theorem length_assertionHead_le (c : Cursor) : c.assertionHead.2.length ≤ 2 :=
  length_afterCheck_le _

/-- The head of a statement has at least one token, and at most two tasks follow it. -/
theorem statementHead?_decreases {c c' : Cursor} {tasks : List Pending}
    (h : c.statementHead? = some (c', tasks)) : c'.left < c.left ∧ tasks.length ≤ 2 := by
  unfold statementHead? at h
  split at h
  · simp at h
  · next t rest hc =>
    have hbump : c.bump.left < c.left := left_bump_lt (by simp [hc])
    split at h
    · simp at h
    · next hend =>
      have h := Option.some.inj h
      split at h
      · obtain ⟨rfl, rfl⟩ := Prod.mk.inj h
        exact ⟨hbump, by simp⟩
      · obtain ⟨rfl, rfl⟩ := Prod.mk.inj h
        exact ⟨Nat.lt_of_le_of_lt (left_eatLabel_le _) (left_skipBlock_lt _ _ hc), by simp⟩
      · obtain ⟨rfl, rfl⟩ := Prod.mk.inj h
        exact ⟨Nat.lt_of_le_of_lt (left_eatLabel_le _) (left_skipBlock_lt _ _ hc), by simp⟩
      · obtain ⟨rfl, rfl⟩ := Prod.mk.inj h
        exact ⟨left_skipBlock_lt _ _ hc, by simp⟩
      · have h₁ := c.bump.left_assertionHead_le
        have h₂ := c.bump.length_assertionHead_le
        rw [h] at h₁ h₂
        exact ⟨Nat.lt_of_le_of_lt h₁ hbump, h₂⟩
      · have h₁ := c.bump.left_controlHead_le t.text
        have h₂ := c.bump.length_controlHead_le t.text
        rw [h] at h₁ h₂
        exact ⟨Nat.lt_of_le_of_lt h₁ hbump, h₂⟩
      · next hsemi _ _ _ _ _ =>
        obtain ⟨rfl, rfl⟩ := Prod.mk.inj h
        exact ⟨left_skipToSemicolon_lt hc hsemi (by simpa using hend), by simp⟩

/-- Reads everything that is pending. In front of the end of a region nothing more is read; what
leads to a missing statement has been read then. -/
def finish (c : Cursor) (tasks : List Pending) : Cursor :=
  match tasks with
  | [] => c
  | .alternative :: tasks =>
    if c.isText "else" then c.bump.finish (.statement :: tasks) else c.finish tasks
  | .loopEnd :: tasks =>
    if c.isText "while" then (c.bump.skipBalanced.eat .semicolon).finish tasks else c.finish tasks
  | .statement :: tasks =>
    match _h : c.skipStatementLeads.statementHead? with
    | none => c.skipStatementLeads
    | some (next, more) => next.finish (more ++ tasks)
termination_by 3 * c.left + tasks.length
decreasing_by
  · next h =>
    have hne : c.rest ≠ [] := by
      intro hc
      simp [isText, nextIs, hc] at h
    have := left_bump_lt hne
    simp only [List.length_cons]
    omega
  · simp only [List.length_cons]
    omega
  · have h₁ := c.left_bump_le
    have h₂ := c.bump.left_skipBalanced_le
    have h₃ := c.bump.skipBalanced.left_eat_le .semicolon
    simp only [List.length_cons]
    omega
  · simp only [List.length_cons]
    omega
  · have h₁ := c.left_skipStatementLeads_le
    have h₂ := statementHead?_decreases _h
    simp only [List.length_append, List.length_cons]
    omega

/-- Reads one statement, with all statements inside. -/
def skipStatement (c : Cursor) : Cursor := c.finish [.statement]

end Cursor

end HdlIndex
