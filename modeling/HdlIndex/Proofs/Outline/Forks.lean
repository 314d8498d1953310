import HdlIndex.Proofs.Outline.Procedure

/-! Fork blocks as they are written. The end of a block is found by counting `fork` and `join`, and
`wait fork;` and `disable fork;` count although they open nothing. Main statement: a fork block is read
over exactly if it has no such statement inside, or if nothing follows it. -/

namespace HdlIndex

open OutlineToken (InRole Word BlockBalanced)

namespace Procedure

/-- What stands in a fork block, without regard to anything but its blocks of this kind. -/
inductive ForkBody where
  | nil
  | token (t : OutlineToken) (opensNone : t.role ≠ .fork) (closesNone : t.role ≠ .join)
      (rest : ForkBody)
  /-- A statement about the processes that were forked: it names them, and opens no block. -/
  | bare (word : Word .control ["wait", "disable"]) (fork : Word .fork ["fork"]) (rest : ForkBody)
  | block (opener : Word .fork ["fork"]) (body : ForkBody) (closer : InRole .join) (rest : ForkBody)

namespace ForkBody

def tokens : ForkBody → List OutlineToken
  | nil => []
  | token t _ _ rest => t :: rest.tokens
  | bare word fork rest => word.1 :: fork.1 :: rest.tokens
  | block opener body closer rest => opener.1 :: (body.tokens ++ closer.1 :: rest.tokens)

/-- How many `fork`s open no block. -/
def bareForks : ForkBody → Nat
  | nil => 0
  | token _ _ _ rest => rest.bareForks
  | bare _ _ rest => rest.bareForks + 1
  | block _ body _ rest => body.bareForks + rest.bareForks

end ForkBody

/-- A fork block. The closing keyword is `join`, `join_any` or `join_none`. -/
structure ForkBlock where
  opener : Word .fork ["fork"]
  body : ForkBody
  closer : InRole .join
  label : Option Label

def ForkBlock.tokens (b : ForkBlock) : List OutlineToken :=
  (b.opener.1 :: (b.body.tokens ++ [b.closer.1])) ++ labelTokens b.label

end Procedure

namespace Cursor

open Procedure

variable {c d : Cursor} {t : OutlineToken} {rest : List OutlineToken}

/-- The count behind the body of a fork block is too high by the `fork`s that open no block. -/
theorem skipBlockFrom_forkBody (body : ForkBody) {depth : Nat} (hdepth : depth ≠ 0)
    (h : c.Reads body.tokens d) :
    skipBlockFrom .fork .join depth c c.rest =
      skipBlockFrom .fork .join (depth + body.bareForks) d d.rest := by
  have hcounts := counts_skipBlockFrom .fork .join
  induction body generalizing c d depth with
  | nil => rw [Reads.eq h, ForkBody.bareForks, Nat.add_zero]
  | token t opensNone closesNone rest ih =>
    obtain ⟨hrest, hbump⟩ := Reads.cons h
    rw [hcounts.neither hrest (by simp [opensNone]) (by simp [closesNone]) hdepth]
    exact ih hdepth hbump
  | bare word fork rest ih =>
    obtain ⟨hrest, hbump⟩ := Reads.cons h
    obtain ⟨hrest', hbump'⟩ := hbump.cons
    calc skipBlockFrom .fork .join depth c c.rest
      _ = skipBlockFrom .fork .join depth c.bump c.bump.rest :=
        hcounts.neither hrest (by simp [word.2.1]) (by simp [word.2.1]) hdepth
      _ = skipBlockFrom .fork .join (depth + 1) c.bump.bump c.bump.bump.rest :=
        hcounts.opening hrest' (by simp [fork.2.1]) hdepth
      _ = skipBlockFrom .fork .join (depth + 1 + rest.bareForks) d d.rest :=
        ih (Nat.succ_ne_zero depth) hbump'
      _ = _ := by rw [ForkBody.bareForks, Nat.add_assoc, Nat.add_comm 1]
  | block opener body closer rest ihbody ihrest =>
    obtain ⟨hrest, hbump⟩ := Reads.cons h
    obtain ⟨e, hbody, hbehind⟩ := hbump.split
    obtain ⟨hrest', hbump'⟩ := hbehind.cons
    have hdepth' : depth + body.bareForks ≠ 0 := by omega
    calc skipBlockFrom .fork .join depth c c.rest
      _ = skipBlockFrom .fork .join (depth + 1) c.bump c.bump.rest :=
        hcounts.opening hrest (by simp [opener.2.1]) hdepth
      _ = skipBlockFrom .fork .join (depth + 1 + body.bareForks) e e.rest :=
        ihbody (Nat.succ_ne_zero depth) hbody
      _ = skipBlockFrom .fork .join (depth + body.bareForks + 1) e e.rest := by
        rw [Nat.add_right_comm]
      _ = skipBlockFrom .fork .join (depth + body.bareForks) e.bump e.bump.rest :=
        hcounts.closing hrest' (by simp [closer.2]) (by simp [closer.2]) hdepth'
      _ = skipBlockFrom .fork .join (depth + body.bareForks + rest.bareForks) d d.rest :=
        ihrest hdepth' hbump'
      _ = _ := by rw [ForkBody.bareForks, Nat.add_assoc]

theorem skipStatement_fork (opener : Word .fork ["fork"]) (hrest : c.rest = opener.1 :: rest) :
    c.skipStatement = (c.skipBlock .fork .join).eatLabel := by
  have hrole := opener.2.1
  have hlead : c.statementLead? = none :=
    statementLead?_of_opensBlock hrest (by simp [OutlineToken.opensBlock, hrole])
      (by simp [List.mem_singleton.1 opener.2.2])
  have hhead : c.statementHead? = some ((c.skipBlock .fork .join).eatLabel, []) := by
    simp [statementHead?, hrest, OutlineToken.isRegionEnd, hrole]
  rw [skipStatement, finish_of_head hlead hhead, List.append_nil, finish]

/-- Reading a fork block over stops exactly behind it if every `fork` inside opens a block. Otherwise the
`join` is taken for that of an inner block, and whatever follows is read as well. -/
theorem skipStatement_fork_iff (b : ForkBlock) (h : c.Reads b.tokens d) (hlabel : d.label? = none) :
    c.skipStatement = d ↔ b.body.bareForks = 0 ∨ d.rest = [] := by
  obtain ⟨opener, body, closer, label⟩ := b
  obtain ⟨e, hblock, hname⟩ := h.split
  obtain ⟨hrest, hbump⟩ := Reads.cons hblock
  obtain ⟨f, hbody, hend⟩ := hbump.split
  obtain ⟨hrest', hbump'⟩ := hend.cons
  obtain rfl := hbump'.eq
  have hskip : c.skipBlock .fork .join =
      skipBlockFrom .fork .join (1 + body.bareForks) f f.rest := by
    rw [← skipBlockFrom_forkBody body Nat.one_ne_zero hbody, skipBlock, hrest, bump_eq hrest,
      skipBlockFrom]
    simp [OutlineToken.nestBlock, opener.2.1]
  rw [skipStatement_fork opener hrest, hskip]
  cases hbare : body.bareForks with
  | zero =>
    have hclosed : skipBlockFrom .fork .join (1 + 0) f f.rest = f.bump := by
      rw [hrest', bump_eq hrest', skipBlockFrom]
      simp [OutlineToken.nestBlock, closer.2]
    rw [hclosed, eatLabel_tokens label hname hlabel]
    simp
  | succ n =>
    have hcounts := counts_skipBlockFrom .fork .join
    have hopen : skipBlockFrom .fork .join (1 + (n + 1)) f f.rest =
        skipBlockFrom .fork .join (n + 1) d d.rest := by
      rw [Nat.add_comm]
      exact (hcounts.closing hrest' (by simp [closer.2]) (by simp [closer.2]) n.succ_ne_zero).trans
        (hcounts.pass (balanced_labelTokens label (by decide) (by decide)) n.succ_ne_zero hname)
    rw [hopen]
    cases hd : d.rest with
    | nil =>
      have hstay : skipBlockFrom .fork .join (n + 1) d [] = d := by rw [skipBlockFrom, ← hd]
      rw [hstay, eatLabel, hlabel]
      simp
    | cons t rest =>
      -- At least one token behind the block is read.
      have hlt := Nat.le_trans (left_eatLabel_le _)
        (left_skipBlockFrom_le .fork .join (n + 1) d t rest)
      have hne : (skipBlockFrom .fork .join (n + 1) d (t :: rest)).eatLabel ≠ d := by
        intro heq
        rw [heq, left, hd, List.length_cons] at hlt
        omega
      simp [hne]

/-- `fork fork : b ; join_any join : a`. -/
def nestedForks : ForkBlock where
  opener := ⟨⟨"fork", .fork, 0, 4⟩, by decide⟩
  body := .block ⟨⟨"fork", .fork, 5, 9⟩, by decide⟩
    (.token ⟨":", .colon, 10, 11⟩ (by decide) (by decide)
      (.token ⟨"b", .identifier, 12, 13⟩ (by decide) (by decide)
        (.token ⟨";", .semicolon, 14, 15⟩ (by decide) (by decide) .nil)))
    ⟨⟨"join_any", .join, 16, 24⟩, rfl⟩ .nil
  closer := ⟨⟨"join", .join, 25, 29⟩, rfl⟩
  label := some ⟨⟨⟨":", .colon, 30, 31⟩, rfl⟩, ⟨⟨"a", .identifier, 32, 33⟩, rfl⟩⟩

theorem skipStatement_fork_iff_nested :
    (start (nestedForks.tokens ++ [⟨"w", .identifier, 34, 35⟩])).skipStatement =
      ⟨9, 33, [⟨"w", .identifier, 34, 35⟩]⟩ :=
  (skipStatement_fork_iff nestedForks ⟨rfl, rfl, rfl⟩ rfl).2 (.inl rfl)

/-- `fork wait fork; join`. -/
def waitingFork : ForkBlock where
  opener := ⟨⟨"fork", .fork, 0, 4⟩, by decide⟩
  body := .bare ⟨⟨"wait", .control, 5, 9⟩, by decide⟩ ⟨⟨"fork", .fork, 10, 14⟩, by decide⟩
    (.token ⟨";", .semicolon, 14, 15⟩ (by decide) (by decide) .nil)
  closer := ⟨⟨"join", .join, 16, 20⟩, rfl⟩
  label := none

/-- What stands behind the block is read with it. -/
theorem skipStatement_behind_waitingFork :
    (start (waitingFork.tokens ++ [⟨"w", .identifier, 21, 22⟩])).Reads waitingFork.tokens
        ⟨5, 20, [⟨"w", .identifier, 21, 22⟩]⟩ ∧
      (start (waitingFork.tokens ++ [⟨"w", .identifier, 21, 22⟩])).skipStatement = ⟨6, 22, []⟩ := by
  refine ⟨⟨rfl, rfl, rfl⟩, ?_⟩
  rw [skipStatement, finish_of_some rfl, List.append_nil, finish]
  rfl

end Cursor

end HdlIndex
