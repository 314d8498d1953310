import HdlIndex.Proofs.Outline.Balance

/-! Procedural statements as they are written. Reading them over does not parse them: it knows how many
statements follow a keyword, keeps what is still to follow as a list of tasks, and counts keywords to
find the end of a block. An `else` goes to the innermost `if` that can take it, whatever statement it
was written for, and in both readings the statements end at the same token. Main statement: a statement
is read over from its first token to its last, unless `begin` or `end` stands behind an event or a delay
in one of its blocks. -/

namespace HdlIndex

open OutlineToken (InRole Word Balanced BracketBalanced BlockBalanced)

namespace OutlineToken

/-- Whether the token is a keyword that opens a block. -/
def opensBlock (t : OutlineToken) : Bool :=
  match t.role with
  | .blockBegin | .fork | .caseBegin => true
  | _ => false

/-- Whether the token is a keyword that closes a block. -/
def closesBlock (t : OutlineToken) : Bool :=
  match t.role with
  | .blockEnd | .join | .caseEnd => true
  | _ => false

end OutlineToken

namespace Procedure

/-! ### What is written -/

/-- An expression in parentheses, without keywords of blocks. -/
structure Parens where
  opener : InRole .parenOpen
  inner : List OutlineToken
  closer : InRole .parenClose
  balanced : BracketBalanced (fun _ => True) inner
  plain : ∀ t ∈ inner, t.opensBlock = false ∧ t.closesBlock = false

def Parens.tokens (p : Parens) : List OutlineToken := p.opener.1 :: (p.inner ++ [p.closer.1])

/-- A colon and a name. -/
structure Label where
  colon : InRole .colon
  name : InRole .identifier

def labelTokens : Option Label → List OutlineToken
  | none => []
  | some label => [label.colon.1, label.name.1]

/-- Any statement that no keyword of control leads, up to its semicolon. It may be empty. -/
structure Simple where
  inner : List OutlineToken
  semicolon : Word .semicolon [";"]
  balanced : BracketBalanced (fun t => t.role ≠ .semicolon) inner
  plain : ∀ t ∈ inner, t.opensBlock = false ∧ t.isRegionEnd = false
  start : ∀ t ∈ inner.head?, t.role ≠ .control ∧ t.role ≠ .assertion ∧ t.role ≠ .eventAt ∧
    t.role ≠ .hash ∧ t.text ≠ "##"
  unlabelled : ∀ name colon rest, inner = name :: colon :: rest → name.role = .identifier →
    colon.role ≠ .colon

def Simple.tokens (s : Simple) : List OutlineToken := s.inner ++ [s.semicolon.1]

/-- What can stand in front of a statement. -/
inductive Lead where
  | label (name : InRole .identifier) (colon : InRole .colon)
  /-- An event or a delay in parentheses. -/
  | timing (sign : OutlineToken) (isSign : sign.role = .eventAt ∨ sign.role = .hash)
      (condition : Parens)
  /-- An event or a delay of one token. -/
  | tick (sign : OutlineToken) (isSign : sign.role = .eventAt ∨ sign.role = .hash)
      (awaited : OutlineToken) (single : awaited.isOpen = false ∧ awaited.isClose = false)
  | qualifier (word : Word .control ["unique", "unique0", "priority"])

def Lead.tokens : Lead → List OutlineToken
  | label name colon => [name.1, colon.1]
  | timing sign _ condition => sign :: condition.tokens
  | tick sign _ awaited _ => [sign, awaited]
  | qualifier word => [word.1]

mutual

inductive Statement where
  | simple (inner : Simple)
  | block (opener : Word .blockBegin ["begin"]) (name : Option Label) (body : Statements)
      (closer : InRole .blockEnd) (endName : Option Label)
  | condition (keyword : Word .control ["if"]) (test : Parens) (body : Statement)
  | choice (keyword : Word .control ["if"]) (test : Parens) (body : Statement)
      (otherwise : Word .control ["else"]) (alternative : Statement)
  | loop (keyword : Word .control ["for", "foreach", "while", "repeat"]) (head : Parens)
      (body : Statement)
  | forever (keyword : Word .control ["forever"]) (body : Statement)
  | doLoop (keyword : Word .control ["do"]) (body : Statement) (closing : Word .control ["while"])
      (test : Parens) (semicolon : InRole .semicolon)
  | wait (keyword : Word .control ["wait"]) (condition : Parens) (body : Statement)
  | selection (keyword : Word .caseBegin ["case", "casex", "casez"]) (value : Parens)
      (items : List OutlineToken) (blocks : BlockBalanced .blockBegin .blockEnd items)
      (selections : BlockBalanced .caseBegin .caseEnd items) (closer : InRole .caseEnd)
  | led (lead : Lead) (body : Statement)

/-- Statements in a row. -/
inductive Statements where
  | nil
  | cons (first : Statement) (rest : Statements)

end

mutual

def Statement.tokens : Statement → List OutlineToken
  | .simple inner => inner.tokens
  | .block opener name body closer endName =>
    opener.1 :: ((labelTokens name ++ body.tokens) ++ [closer.1]) ++ labelTokens endName
  | .condition keyword test body => keyword.1 :: test.tokens ++ body.tokens
  | .choice keyword test body otherwise alternative =>
    keyword.1 :: test.tokens ++ (body.tokens ++ otherwise.1 :: alternative.tokens)
  | .loop keyword head body => keyword.1 :: head.tokens ++ body.tokens
  | .forever keyword body => keyword.1 :: body.tokens
  | .doLoop keyword body closing test semicolon =>
    keyword.1 :: (body.tokens ++ closing.1 :: (test.tokens ++ [semicolon.1]))
  | .wait keyword condition body => keyword.1 :: condition.tokens ++ body.tokens
  | .selection keyword value items _ _ closer =>
    keyword.1 :: ((value.tokens ++ items) ++ [closer.1])
  | .led lead body => lead.tokens ++ body.tokens

def Statements.tokens : Statements → List OutlineToken
  | .nil => []
  | .cons first rest => first.tokens ++ rest.tokens

end

/-- A simple statement starts with a token that neither leads a statement nor has a rule of its own. -/
theorem Simple.exists_start (s : Simple) : ∃ t more, s.tokens = t :: more ∧
    (t.role ≠ .control ∧ t.role ≠ .assertion ∧ t.role ≠ .eventAt ∧ t.role ≠ .hash ∧
      t.text ≠ "##") ∧ t.opensBlock = false ∧ t.isRegionEnd = false ∧
    (t.role = .identifier → ∃ u rest, more = u :: rest ∧ u.role ≠ .colon) := by
  obtain ⟨inner, ⟨semicolon, hrole, htext⟩, -, hplain, hstart, hlabel⟩ := s
  rw [List.mem_singleton] at htext
  cases inner with
  | nil =>
    refine ⟨semicolon, [], rfl, by simp [hrole, htext], ?_, ?_, by simp [hrole]⟩
    · simp [OutlineToken.opensBlock, hrole]
    · simp [OutlineToken.isRegionEnd, hrole]
  | cons t inner =>
    obtain ⟨hopens, hregion⟩ := hplain t List.mem_cons_self
    refine ⟨t, inner ++ [semicolon], rfl, hstart t rfl, hopens, hregion, fun hname => ?_⟩
    cases inner with
    | nil => exact ⟨semicolon, [], rfl, by simp [hrole]⟩
    | cons u inner => exact ⟨u, inner ++ [semicolon], rfl, hlabel t u inner rfl hname⟩

/-! ### Events and delays of one token -/

def Lead.awaited : Lead → List OutlineToken
  | tick _ _ awaited _ => [awaited]
  | _ => []

mutual

/-- The single tokens that stand behind an event or a delay. -/
def Statement.awaited : Statement → List OutlineToken
  | .simple _ => []
  | .block _ _ body _ _ => body.awaited
  | .condition _ _ body => body.awaited
  | .choice _ _ body _ alternative => body.awaited ++ alternative.awaited
  | .loop _ _ body => body.awaited
  | .forever _ body => body.awaited
  | .doLoop _ body _ _ _ => body.awaited
  | .wait _ _ body => body.awaited
  | .selection _ _ _ _ _ _ => []
  | .led lead body => lead.awaited ++ body.awaited

def Statements.awaited : Statements → List OutlineToken
  | .nil => []
  | .cons first rest => first.awaited ++ rest.awaited

end

/-- Those of them that stand in a block. -/
def Statement.awaitedInBlocks : Statement → List OutlineToken
  | .simple _ => []
  | .block _ _ body _ _ => body.awaited
  | .condition _ _ body => body.awaitedInBlocks
  | .choice _ _ body _ alternative => body.awaitedInBlocks ++ alternative.awaitedInBlocks
  | .loop _ _ body => body.awaitedInBlocks
  | .forever _ body => body.awaitedInBlocks
  | .doLoop _ body _ _ _ => body.awaitedInBlocks
  | .wait _ _ body => body.awaitedInBlocks
  | .selection _ _ _ _ _ _ => []
  | .led _ body => body.awaitedInBlocks

/-- How many alternatives a statement leaves open at its end: one for each `if` that ends there and
has not taken an `else`. -/
def Statement.openChoices : Statement → Nat
  | .condition _ _ body => body.openChoices + 1
  | .choice _ _ body _ alternative => alternative.openChoices + body.openChoices
  | .loop _ _ body => body.openChoices
  | .forever _ body => body.openChoices
  | .wait _ _ body => body.openChoices
  | .led _ body => body.openChoices
  | _ => 0

end Procedure

namespace Cursor

open Procedure

variable {c d : Cursor} {t u : OutlineToken} {rest : List OutlineToken} {tasks more : List Pending}

/-! ### Leads -/

theorem left_statementLead?_lt (h : c.statementLead? = some d) : d.left < c.left := by
  cases hrest : c.rest with
  | nil => simp [statementLead?, hrest] at h
  | cons t rest =>
    have hbump : c.bump.left < c.left := left_bump_lt (by simp [hrest])
    have hahead : c.bump.Ahead d := by
      unfold statementLead? at h
      simp only [hrest] at h
      split at h
      · cases h
        exact (Ahead.refl _).bump
      · split at h
        · cases h
          exact (Ahead.refl _).skipGroup
        · split at h
          · cases h
            exact .refl _
          · cases h
    exact Nat.lt_of_le_of_lt hahead.left_le hbump

theorem ends_skipStatementLeads (c : Cursor) : Ends statementLead? c c.skipStatementLeads :=
  ends_iterate left (fun _ _ => left_statementLead?_lt) c.rest c (Nat.le_refl _)

theorem skipStatementLeads_of_none (h : c.statementLead? = none) : c.skipStatementLeads = c :=
  c.ends_skipStatementLeads.unique (.stop h)

theorem skipStatementLeads_of_some (h : c.statementLead? = some d) :
    c.skipStatementLeads = d.skipStatementLeads :=
  c.ends_skipStatementLeads.unique (.step h d.ends_skipStatementLeads)

/-- What leads a statement is read, and the statement is still to follow. -/
theorem finish_of_lead (h : c.statementLead? = some d) :
    c.finish (.statement :: tasks) = d.finish (.statement :: tasks) := by
  have hleads := skipStatementLeads_of_some h
  cases hhead : d.skipStatementLeads.statementHead? with
  | none => rw [finish_of_none (hleads ▸ hhead), finish_of_none hhead, hleads]
  | some head => rw [finish_of_some (hleads ▸ hhead), finish_of_some hhead]

/-- The head of a statement without leads is read, and what belongs to it is to follow. -/
theorem finish_of_head (hlead : c.statementLead? = none) (h : c.statementHead? = some (d, more)) :
    c.finish (.statement :: tasks) = d.finish (more ++ tasks) :=
  finish_of_some (by rwa [skipStatementLeads_of_none hlead])

theorem statementLead?_eq_none (hrest : c.rest = t :: rest)
    (hlabel : t.role = .identifier → c.nthIs 1 .colon = false) (hat : t.role ≠ .eventAt)
    (hhash : t.role ≠ .hash) (htext : t.text ≠ "##")
    (hword : t.role = .control → t.text ∉ ["unique", "unique0", "priority"]) :
    c.statementLead? = none := by
  have hname : (t.role == .identifier && c.nthIs 1 .colon) = false := by
    cases hrole : t.role == .identifier with
    | false => rfl
    | true => rw [hlabel (by simpa using hrole)]; rfl
  have hqualifier : (t.role == .control && ["unique", "unique0", "priority"].contains t.text) =
      false := by
    cases hrole : t.role == .control with
    | false => rfl
    | true => simpa using hword (by simpa using hrole)
  simp only [statementLead?, hrest, hname, hqualifier]
  simp [hat, hhash, htext]

theorem statementLead?_of_opensBlock (hrest : c.rest = t :: rest) (h : t.opensBlock = true)
    (htext : t.text ≠ "##") : c.statementLead? = none := by
  unfold OutlineToken.opensBlock at h
  refine statementLead?_eq_none hrest ?_ ?_ ?_ htext ?_ <;> intro hrole <;> simp [hrole] at h

theorem skipBalanced_parens (p : Parens) (h : c.Reads p.tokens d) : c.skipBalanced = d := by
  refine skipBalanced_of_balanced ?_ ?_ p.balanced h
  · simp [OutlineToken.isOpen, p.opener.2]
  · simp [OutlineToken.isClose, p.closer.2]

/-- A lead is read as it is written. -/
theorem statementLead?_lead (lead : Lead) (h : c.Reads lead.tokens d) :
    c.statementLead? = some d := by
  cases lead with
  | label name colon =>
    obtain ⟨hrest, hbump⟩ := Reads.cons h
    obtain ⟨-, hbump⟩ := hbump.cons
    simp only [statementLead?, hrest, nthIs]
    simp [name.2, colon.2, hbump.eq]
  | timing sign isSign condition =>
    obtain ⟨hrest, hbump⟩ := Reads.cons h
    have hopen : c.bump.nextIs (·.isOpen) = true := by
      obtain ⟨hrest', -⟩ := Reads.cons hbump
      simp [nextIs, hrest', OutlineToken.isOpen, condition.opener.2]
    have hgroup : c.bump.skipGroup = d := by
      rw [skipGroup, if_pos hopen, skipBalanced_parens condition hbump]
    simp only [statementLead?, hrest]
    rcases isSign with hsign | hsign <;> simp [hsign, hgroup]
  | tick sign isSign awaited single =>
    obtain ⟨hrest, hbump⟩ := Reads.cons h
    obtain ⟨hrest', hbump'⟩ := hbump.cons
    have hgroup : c.bump.skipGroup = d := by
      rw [skipGroup, if_neg (by simp [nextIs, hrest', single.1]), hbump'.eq]
    simp only [statementLead?, hrest]
    rcases isSign with hsign | hsign <;> simp [hsign, hgroup]
  | qualifier word =>
    obtain ⟨hrest, hbump⟩ := Reads.cons h
    obtain ⟨t, hrole, htext⟩ := word
    have hmark : t.text ≠ "##" := by
      rintro heq
      simp [heq] at htext
    simp only [statementLead?, hrest]
    simp [hrole, hmark, htext, hbump.eq]

/-! ### Single statements -/

theorem statementHead?_of_plain (hrest : c.rest = t :: rest) (hregion : t.isRegionEnd = false)
    (hopens : t.opensBlock = false) (hassertion : t.role ≠ .assertion) (hcontrol : t.role ≠ .control)
    (hd : c.skipToSemicolon = d) : c.statementHead? = some (d, []) := by
  have hbump : t.role = .semicolon → c.bump = d := by
    intro hrole
    rw [← hd, skipToSemicolon, skipUntil_of_stop hrest (by simp [hrole]), eat,
      if_pos (by simp [is, nextIs, hrest, hrole])]
  unfold OutlineToken.opensBlock at hopens
  simp only [statementHead?, hrest, hregion, Bool.false_eq_true, if_false, Option.some.injEq]
  split
  · next hrole => rw [hbump hrole]
  · next hrole => simp [hrole] at hopens
  · next hrole => simp [hrole] at hopens
  · next hrole => simp [hrole] at hopens
  · next hrole => exact absurd hrole hassertion
  · next hrole => exact absurd hrole hcontrol
  · rw [hd]

theorem finish_simple (s : Simple) (h : c.Reads s.tokens d) :
    c.finish (.statement :: tasks) = d.finish tasks := by
  have hskip : c.skipToSemicolon = d :=
    skipToSemicolon_of_balanced s.balanced (fun t ht => (s.plain t ht).2) s.semicolon.2.1 h
  obtain ⟨t, more, htokens, ⟨hcontrol, hassertion, hat, hhash, htext⟩, hopens, hregion, hname⟩ :=
    s.exists_start
  rw [htokens] at h
  obtain ⟨hrest, hbump⟩ := h.cons
  have hlead : c.statementLead? = none := by
    refine statementLead?_eq_none hrest (fun hrole => ?_) hat hhash htext (absurd · hcontrol)
    obtain ⟨u, rest, rfl, hcolon⟩ := hname hrole
    simp [nthIs, hrest, hcolon]
  exact finish_of_head hlead (statementHead?_of_plain hrest hregion hopens hassertion hcontrol hskip)

/-- A keyword of control tells what is to follow. -/
theorem finish_of_word {texts : List String} (keyword : Word .control texts)
    (hrest : c.rest = keyword.1 :: rest)
    (htexts : ∀ text ∈ texts, text ∉ ["unique", "unique0", "priority", "##"])
    (h : c.bump.controlHead keyword.1.text = (d, more)) :
    c.finish (.statement :: tasks) = d.finish (more ++ tasks) := by
  obtain ⟨t, hrole, htext⟩ := keyword
  have htext := htexts _ htext
  have hlead : c.statementLead? = none := by
    refine statementLead?_eq_none (t := t) hrest (by simp [hrole]) (by simp [hrole]) (by simp [hrole])
      ?_ ?_
    · rintro heq
      simp [heq] at htext
    · intro _ hword
      exact htext (List.mem_append_left ["##"] hword)
  refine finish_of_head hlead ?_
  simp [statementHead?, hrest, OutlineToken.isRegionEnd, hrole, h]

/-! ### Keywords of control -/

theorem finish_if (keyword : Word .control ["if"]) (test : Parens)
    (h : c.Reads (keyword.1 :: test.tokens) d) :
    c.finish (.statement :: tasks) = d.finish (.statement :: .alternative :: tasks) := by
  obtain ⟨hrest, hbump⟩ := h.cons
  have hhead : c.bump.controlHead keyword.1.text = (d, [.statement, .alternative]) := by
    rw [List.mem_singleton.1 keyword.2.2, ← skipBalanced_parens test hbump]
    rfl
  exact finish_of_word keyword hrest (by decide) hhead

theorem finish_loop (keyword : Word .control ["for", "foreach", "while", "repeat"]) (head : Parens)
    (h : c.Reads (keyword.1 :: head.tokens) d) :
    c.finish (.statement :: tasks) = d.finish (.statement :: tasks) := by
  obtain ⟨hrest, hbump⟩ := h.cons
  have hhead : c.bump.controlHead keyword.1.text = (d, [.statement]) := by
    have htext := keyword.2.2
    simp only [List.mem_cons, List.not_mem_nil, or_false] at htext
    rw [← skipBalanced_parens head hbump]
    rcases htext with htext | htext | htext | htext <;> exact congrArg c.bump.controlHead htext
  exact finish_of_word keyword hrest (by decide) hhead

theorem finish_forever (keyword : Word .control ["forever"]) (hrest : c.rest = keyword.1 :: rest) :
    c.finish (.statement :: tasks) = c.bump.finish (.statement :: tasks) := by
  have hhead : c.bump.controlHead keyword.1.text = (c.bump, [.statement]) := by
    rw [List.mem_singleton.1 keyword.2.2]
    rfl
  exact finish_of_word keyword hrest (by decide) hhead

theorem finish_do (keyword : Word .control ["do"]) (hrest : c.rest = keyword.1 :: rest) :
    c.finish (.statement :: tasks) = c.bump.finish (.statement :: .loopEnd :: tasks) := by
  have hhead : c.bump.controlHead keyword.1.text = (c.bump, [.statement, .loopEnd]) := by
    rw [List.mem_singleton.1 keyword.2.2]
    rfl
  exact finish_of_word keyword hrest (by decide) hhead

theorem finish_loopEnd (closing : Word .control ["while"]) (test : Parens)
    (semicolon : InRole .semicolon)
    (h : c.Reads (closing.1 :: (test.tokens ++ [semicolon.1])) d) :
    c.finish (.loopEnd :: tasks) = d.finish tasks := by
  obtain ⟨hrest, hbump⟩ := h.cons
  obtain ⟨e, htest, hend⟩ := hbump.split
  obtain ⟨hrest', hbehind⟩ := hend.cons
  have hwhile : c.isText "while" = true := by
    simp [isText, nextIs, hrest, List.mem_singleton.1 closing.2.2]
  have hsemicolon : e.eat .semicolon = d := by
    rw [eat, if_pos (by simp [is, nextIs, hrest', semicolon.2])]
    exact hbehind.eq
  rw [finish, if_pos hwhile, skipBalanced_parens test htest, hsemicolon]

theorem finish_wait (keyword : Word .control ["wait"]) (condition : Parens)
    (h : c.Reads (keyword.1 :: condition.tokens) d) :
    c.finish (.statement :: tasks) = d.finish (.statement :: tasks) := by
  obtain ⟨hrest, hbump⟩ := h.cons
  have hfork : c.bump.is .fork = false := by
    obtain ⟨hrest', -⟩ := Reads.cons hbump
    simp [is, nextIs, hrest', condition.opener.2]
  have hhead : c.bump.controlHead keyword.1.text = (d, [.statement]) := by
    rw [List.mem_singleton.1 keyword.2.2, ← skipBalanced_parens condition hbump]
    exact if_neg (by simp [hfork])
  exact finish_of_word keyword hrest (by decide) hhead

/-! ### Alternatives -/

theorem replicate_append_alternative (n : Nat) :
    List.replicate n Pending.alternative ++ .alternative :: tasks =
      List.replicate (n + 1) .alternative ++ tasks := by
  rw [List.replicate_succ', List.append_assoc]
  rfl

/-- An `else` is taken by one of the alternatives that are open. -/
theorem finish_else (otherwise : Word .control ["else"]) (hrest : c.rest = otherwise.1 :: rest)
    (n : Nat) :
    c.finish (List.replicate n .alternative ++ .alternative :: tasks) =
      c.bump.finish (.statement :: (List.replicate n .alternative ++ tasks)) := by
  have helse : c.isText "else" = true := by
    simp [isText, nextIs, hrest, List.mem_singleton.1 otherwise.2.2]
  rw [replicate_append_alternative, List.replicate_succ, List.cons_append, finish, if_pos helse]

/-- Without an `else`, all alternatives that are open are given up. -/
theorem finish_alternatives (h : c.isText "else" = false) (n : Nat) :
    c.finish (List.replicate n .alternative ++ tasks) = c.finish tasks := by
  induction n with
  | zero => rfl
  | succ n ih =>
    rw [List.replicate_succ, List.cons_append, finish, if_neg (by simp [h])]
    exact ih

/-! ### Labels -/

theorem eatLabel_tokens (label : Option Label) (h : c.Reads (labelTokens label) d)
    (hd : d.label? = none) : c.eatLabel = d := by
  cases label with
  | none =>
    rw [Reads.eq h, eatLabel, hd]
    rfl
  | some label =>
    obtain ⟨hrest, hbump⟩ := Reads.cons h
    obtain ⟨hrest', hbump'⟩ := hbump.cons
    have hlabel : c.label? = some label.name.1 := by
      rw [label?, if_pos (by simp [is, nextIs, hrest, label.colon.2])]
      simp [identifier?, hrest', label.name.2]
    rw [eatLabel, hlabel]
    exact hbump'.eq

theorem label?_of_role (hrest : c.rest = t :: rest) (h : t.role ≠ .colon) : c.label? = none := by
  rw [label?, if_neg (by simp [is, nextIs, hrest, h])]

end Cursor

/-! ### Blocks -/

namespace OutlineToken

theorem role_ne_of_opensBlock {t : OutlineToken} (h : t.opensBlock = false) :
    t.role ≠ .blockBegin ∧ t.role ≠ .caseBegin := by
  unfold opensBlock at h
  constructor <;> intro hrole <;> simp [hrole] at h

theorem role_ne_of_closesBlock {t : OutlineToken} (h : t.closesBlock = false) :
    t.role ≠ .blockEnd ∧ t.role ≠ .caseEnd := by
  unfold closesBlock at h
  constructor <;> intro hrole <;> simp [hrole] at h

theorem closesBlock_of_isRegionEnd {t : OutlineToken} (h : t.isRegionEnd = false) :
    t.closesBlock = false := by
  unfold isRegionEnd at h
  unfold closesBlock
  split at h <;> simp_all

end OutlineToken

namespace Procedure

open OutlineToken

theorem Parens.flat (p : Parens) : ∀ t ∈ p.tokens, t.opensBlock = false ∧ t.closesBlock = false := by
  obtain ⟨opener, inner, closer, -, plain⟩ := p
  intro t ht
  rcases List.mem_cons.1 ht with rfl | ht
  · simp [opensBlock, closesBlock, opener.2]
  · rcases List.mem_append.1 ht with ht | ht
    · exact plain t ht
    · rw [List.mem_singleton.1 ht]
      simp [opensBlock, closesBlock, closer.2]

theorem Parens.blocks (p : Parens) : BlockBalanced .blockBegin .blockEnd p.tokens :=
  .of_flat fun t ht => by
    obtain ⟨hopens, hcloses⟩ := p.flat t ht
    simp [(role_ne_of_opensBlock hopens).1, (role_ne_of_closesBlock hcloses).1]

theorem Parens.selections (p : Parens) : BlockBalanced .caseBegin .caseEnd p.tokens :=
  .of_flat fun t ht => by
    obtain ⟨hopens, hcloses⟩ := p.flat t ht
    simp [(role_ne_of_opensBlock hopens).2, (role_ne_of_closesBlock hcloses).2]

theorem Simple.blocks (s : Simple) : BlockBalanced .blockBegin .blockEnd s.tokens := by
  refine .of_flat fun t ht => ?_
  rcases List.mem_append.1 ht with ht | ht
  · obtain ⟨hopens, hregion⟩ := s.plain t ht
    have hcloses := closesBlock_of_isRegionEnd hregion
    simp [(role_ne_of_opensBlock hopens).1, (role_ne_of_closesBlock hcloses).1]
  · rw [List.mem_singleton.1 ht]
    simp [s.semicolon.2.1]

theorem balanced_labelTokens {opening closing : Role} (label : Option Label)
    (hcolon : Role.colon ≠ opening ∧ Role.colon ≠ closing)
    (hname : Role.identifier ≠ opening ∧ Role.identifier ≠ closing) :
    BlockBalanced opening closing (labelTokens label) := by
  cases label with
  | none => exact .nil
  | some label =>
    rw [← label.colon.2] at hcolon
    rw [← label.name.2] at hname
    exact .uncounted hcolon.1 hcolon.2 (.uncounted hname.1 hname.2 .nil)

theorem blocks_cons_word {texts : List String} (word : Word .control texts)
    {tokens : List OutlineToken} (h : BlockBalanced .blockBegin .blockEnd tokens) :
    BlockBalanced .blockBegin .blockEnd (word.1 :: tokens) :=
  .uncounted (by simp [word.2.1]) (by simp [word.2.1]) h

theorem Lead.blocks (lead : Lead)
    (h : ∀ t ∈ lead.awaited, t.role ≠ .blockBegin ∧ t.role ≠ .blockEnd) :
    BlockBalanced .blockBegin .blockEnd lead.tokens := by
  cases lead with
  | label name colon =>
    exact .uncounted (by simp [name.2]) (by simp [name.2])
      (.uncounted (by simp [colon.2]) (by simp [colon.2]) .nil)
  | timing sign isSign condition =>
    refine .uncounted ?_ ?_ condition.blocks <;> rcases isSign with hsign | hsign <;> simp [hsign]
  | tick sign isSign awaited single =>
    obtain ⟨hbegin, hend⟩ := h awaited (List.mem_singleton_self awaited)
    refine .uncounted ?_ ?_ (.uncounted hbegin hend .nil) <;> rcases isSign with hsign | hsign <;> simp [hsign]
  | qualifier word => exact blocks_cons_word word .nil

mutual

/-- The blocks in a statement are balanced, as long as no `begin` and no `end` stands behind an event
or a delay. -/
theorem Statement.blocks (s : Statement)
    (h : ∀ t ∈ s.awaited, t.role ≠ .blockBegin ∧ t.role ≠ .blockEnd) :
    BlockBalanced .blockBegin .blockEnd s.tokens := by
  match s with
  | .simple inner => exact inner.blocks
  | .block opener name body closer endName =>
    have hinner := (balanced_labelTokens name (by decide) (by decide)).append (body.blocks h)
    rw [Statement.tokens, List.cons_append, List.append_assoc]
    exact .group (by simp [opener.2.1]) trivial (by simp [closer.2]) (by simp [closer.2]) hinner
      (balanced_labelTokens endName (by decide) (by decide))
  | .condition keyword test body => exact blocks_cons_word keyword (test.blocks.append (body.blocks h))
  | .choice keyword test body otherwise alternative =>
    have hbody := body.blocks fun t ht => h t (List.mem_append_left _ ht)
    have halternative := alternative.blocks fun t ht => h t (List.mem_append_right _ ht)
    exact blocks_cons_word keyword
      (test.blocks.append (hbody.append (blocks_cons_word otherwise halternative)))
  | .loop keyword head body => exact blocks_cons_word keyword (head.blocks.append (body.blocks h))
  | .forever keyword body => exact blocks_cons_word keyword (body.blocks h)
  | .doLoop keyword body closing test semicolon =>
    have hsemicolon : BlockBalanced .blockBegin .blockEnd [semicolon.1] :=
      .uncounted (by simp [semicolon.2]) (by simp [semicolon.2]) .nil
    exact blocks_cons_word keyword
      ((body.blocks h).append (blocks_cons_word closing (test.blocks.append hsemicolon)))
  | .wait keyword condition body =>
    exact blocks_cons_word keyword (condition.blocks.append (body.blocks h))
  | .selection keyword value items blocks _ closer =>
    have hcloser : BlockBalanced .blockBegin .blockEnd [closer.1] :=
      .uncounted (by simp [closer.2]) (by simp [closer.2]) .nil
    exact .uncounted (by simp [keyword.2.1]) (by simp [keyword.2.1])
      ((value.blocks.append blocks).append hcloser)
  | .led lead body =>
    exact (lead.blocks fun t ht => h t (List.mem_append_left _ ht)).append
      (body.blocks fun t ht => h t (List.mem_append_right _ ht))

theorem Statements.blocks (s : Statements)
    (h : ∀ t ∈ s.awaited, t.role ≠ .blockBegin ∧ t.role ≠ .blockEnd) :
    BlockBalanced .blockBegin .blockEnd s.tokens := by
  match s with
  | .nil => exact .nil
  | .cons first rest =>
    exact (first.blocks fun t ht => h t (List.mem_append_left _ ht)).append
      (rest.blocks fun t ht => h t (List.mem_append_right _ ht))

end

end Procedure

/-! ### Statements -/

namespace Cursor

open Procedure

variable {c d : Cursor} {t u : OutlineToken} {rest : List OutlineToken} {tasks more : List Pending}

theorem finish_block (opener : Word .blockBegin ["begin"]) (name : Option Label)
    (body : Statements) (closer : InRole .blockEnd) (endName : Option Label)
    (h : c.Reads (Statement.block opener name body closer endName).tokens d)
    (hawaited : ∀ t ∈ body.awaited, t.role ≠ .blockBegin ∧ t.role ≠ .blockEnd)
    (hlabel : d.label? = none) : c.finish (.statement :: tasks) = d.finish tasks := by
  have hinner := (balanced_labelTokens name (by decide) (by decide)).append (body.blocks hawaited)
  rw [Statement.tokens] at h
  obtain ⟨e, he, hend⟩ := h.split
  obtain ⟨hrest, -⟩ := Reads.cons he
  have hskip : c.skipBlock .blockBegin .blockEnd = e :=
    skipBlock_of_balanced (by decide) opener.2.1 closer.2 hinner he
  have hrole := opener.2.1
  have hlead : c.statementLead? = none :=
    statementLead?_of_opensBlock hrest (by simp [OutlineToken.opensBlock, hrole])
      (by simp [List.mem_singleton.1 opener.2.2])
  have hhead : c.statementHead? = some (d, []) := by
    simp [statementHead?, hrest, OutlineToken.isRegionEnd, hrole, hskip,
      eatLabel_tokens endName hend hlabel]
  exact finish_of_head hlead hhead

theorem finish_selection (keyword : Word .caseBegin ["case", "casex", "casez"]) (value : Parens)
    {items : List OutlineToken} (blocks : BlockBalanced .blockBegin .blockEnd items)
    (selections : BlockBalanced .caseBegin .caseEnd items) (closer : InRole .caseEnd)
    (h : c.Reads (Statement.selection keyword value items blocks selections closer).tokens d) :
    c.finish (.statement :: tasks) = d.finish tasks := by
  obtain ⟨hrest, -⟩ := Reads.cons h
  have hskip : c.skipBlock .caseBegin .caseEnd = d :=
    skipBlock_of_balanced (by decide) keyword.2.1 closer.2 (value.selections.append selections) h
  have hrole := keyword.2.1
  have hlead : c.statementLead? = none := by
    refine statementLead?_of_opensBlock hrest (by simp [OutlineToken.opensBlock, hrole]) ?_
    rintro heq
    have htext := keyword.2.2
    simp [heq] at htext
  have hhead : c.statementHead? = some (d, []) := by
    simp [statementHead?, hrest, OutlineToken.isRegionEnd, hrole, hskip]
  exact finish_of_head hlead hhead

/-- A statement is read over, with all alternatives left open that its end leaves open. -/
theorem finish_statement {c d : Cursor} {tasks : List Pending} (s : Statement)
    (h : c.Reads s.tokens d)
    (hawaited : ∀ t ∈ s.awaitedInBlocks, t.role ≠ .blockBegin ∧ t.role ≠ .blockEnd)
    (hlabel : d.label? = none) :
    c.finish (.statement :: tasks) =
      d.finish (List.replicate s.openChoices .alternative ++ tasks) := by
  match s with
  | .simple inner => exact finish_simple inner h
  | .block opener name body closer endName =>
    exact finish_block opener name body closer endName h hawaited hlabel
  | .condition keyword test body =>
    obtain ⟨e, he, hbody⟩ := h.split
    calc c.finish (.statement :: tasks)
      _ = e.finish (.statement :: .alternative :: tasks) := finish_if keyword test he
      _ = d.finish (List.replicate body.openChoices .alternative ++ .alternative :: tasks) :=
        finish_statement body hbody hawaited hlabel
      _ = _ := by rw [replicate_append_alternative, Statement.openChoices]
  | .choice keyword test body otherwise alternative =>
    obtain ⟨hinBody, hinAlternative⟩ := List.forall_mem_append.1 hawaited
    obtain ⟨e, he, hbehind⟩ := h.split
    obtain ⟨f, hbody, helse⟩ := hbehind.split
    obtain ⟨hrest, halternative⟩ := Reads.cons helse
    have hnolabel : f.label? = none := label?_of_role hrest (by simp [otherwise.2.1])
    calc c.finish (.statement :: tasks)
      _ = e.finish (.statement :: .alternative :: tasks) := finish_if keyword test he
      _ = f.finish (List.replicate body.openChoices .alternative ++ .alternative :: tasks) :=
        finish_statement body hbody hinBody hnolabel
      -- The `else` is taken by the innermost `if`; as many as before stay open.
      _ = f.bump.finish (.statement :: (List.replicate body.openChoices .alternative ++ tasks)) :=
        finish_else otherwise hrest _
      _ = d.finish (List.replicate alternative.openChoices .alternative ++
            (List.replicate body.openChoices .alternative ++ tasks)) :=
        finish_statement alternative halternative hinAlternative hlabel
      _ = _ := by
        rw [← List.append_assoc, List.replicate_append_replicate, Statement.openChoices]
  | .loop keyword head body =>
    obtain ⟨e, he, hbody⟩ := h.split
    rw [finish_loop keyword head he]
    exact finish_statement body hbody hawaited hlabel
  | .forever keyword body =>
    obtain ⟨hrest, hbody⟩ := Reads.cons h
    rw [finish_forever keyword hrest]
    exact finish_statement body hbody hawaited hlabel
  | .doLoop keyword body closing test semicolon =>
    obtain ⟨hrest, hbehind⟩ := Reads.cons h
    obtain ⟨e, hbody, hend⟩ := hbehind.split
    obtain ⟨hrest', -⟩ := Reads.cons hend
    have hnolabel : e.label? = none := label?_of_role hrest' (by simp [closing.2.1])
    have helse : e.isText "else" = false := by
      simp [isText, nextIs, hrest', List.mem_singleton.1 closing.2.2]
    calc c.finish (.statement :: tasks)
      _ = c.bump.finish (.statement :: .loopEnd :: tasks) := finish_do keyword hrest
      _ = e.finish (List.replicate body.openChoices .alternative ++ .loopEnd :: tasks) :=
        finish_statement body hbody hawaited hnolabel
      _ = e.finish (.loopEnd :: tasks) := finish_alternatives helse _
      _ = d.finish tasks := finish_loopEnd closing test semicolon hend
  | .wait keyword condition body =>
    obtain ⟨e, he, hbody⟩ := h.split
    rw [finish_wait keyword condition he]
    exact finish_statement body hbody hawaited hlabel
  | .selection keyword value items blocks selections closer =>
    exact finish_selection keyword value blocks selections closer h
  | .led lead body =>
    obtain ⟨e, he, hbody⟩ := h.split
    rw [finish_of_lead (statementLead?_lead lead he)]
    exact finish_statement body hbody hawaited hlabel

/-- Reading a statement over stops exactly behind it. -/
theorem skipStatement_tokens (s : Statement) (h : c.Reads s.tokens d)
    (hawaited : ∀ t ∈ s.awaitedInBlocks, t.role ≠ .blockBegin ∧ t.role ≠ .blockEnd)
    (helse : d.isText "else" = false) (hlabel : d.label? = none) : c.skipStatement = d := by
  calc c.skipStatement
    _ = c.finish [.statement] := rfl
    _ = d.finish (List.replicate s.openChoices .alternative ++ []) :=
      finish_statement s h hawaited hlabel
    _ = d.finish [] := finish_alternatives helse _
    _ = d := by rw [finish]

private def test : Parens :=
  ⟨⟨⟨"(", .parenOpen, 10, 11⟩, rfl⟩, [⟨"a", .identifier, 11, 12⟩], ⟨⟨")", .parenClose, 12, 13⟩, rfl⟩,
    .token rfl rfl trivial .nil, by decide⟩

private def blank : Simple :=
  ⟨[], ⟨⟨";", .semicolon, 14, 15⟩, by decide⟩, .nil, by simp, by simp, by simp⟩

/-- `do begin if (a) @e if (a) ; else ; end while (a) ;`, where one `if` has no `else`. -/
def dangling : Statement :=
  let keyword : Word .control ["if"] := ⟨⟨"if", .control, 9, 11⟩, by decide⟩
  let event : Lead := .tick ⟨"@", .eventAt, 15, 16⟩ (.inl rfl) ⟨"e", .identifier, 16, 17⟩ ⟨rfl, rfl⟩
  let inner : Statement := .choice keyword test (.simple blank)
    ⟨⟨"else", .control, 20, 24⟩, by decide⟩ (.simple blank)
  let body : Statement := .block ⟨⟨"begin", .blockBegin, 3, 8⟩, by decide⟩ none
    (.cons (.condition keyword test (.led event inner)) .nil) ⟨⟨"end", .blockEnd, 30, 33⟩, rfl⟩ none
  .doLoop ⟨⟨"do", .control, 0, 2⟩, by decide⟩ body ⟨⟨"while", .control, 34, 39⟩, by decide⟩ test
    ⟨⟨";", .semicolon, 45, 46⟩, rfl⟩

theorem skipStatement_tokens_dangling :
    (start (dangling.tokens ++ [⟨"w", .identifier, 47, 48⟩])).skipStatement =
      ⟨21, 46, [⟨"w", .identifier, 47, 48⟩]⟩ :=
  skipStatement_tokens dangling ⟨rfl, rfl, rfl⟩ (by decide) rfl rfl

/-- `begin @end x; end`. -/
def awaitingEnd : Statement :=
  .block ⟨⟨"begin", .blockBegin, 0, 5⟩, by decide⟩ none
    (.cons (.led (.tick ⟨"@", .eventAt, 6, 7⟩ (.inl rfl) ⟨"end", .blockEnd, 7, 10⟩ ⟨rfl, rfl⟩)
      (.simple ⟨[⟨"x", .identifier, 11, 12⟩], ⟨⟨";", .semicolon, 12, 13⟩, by decide⟩,
        .token rfl rfl (by decide) .nil, by decide, by decide, by simp⟩)) .nil)
    ⟨⟨"end", .blockEnd, 14, 17⟩, rfl⟩ none

/-- The block ends too early at an `end` that an event control waits for. -/
theorem skipStatement_awaitingEnd_ne :
    (start awaitingEnd.tokens).Reads awaitingEnd.tokens ⟨6, 17, []⟩ ∧
      (start awaitingEnd.tokens).skipStatement ≠ ⟨6, 17, []⟩ := by
  have hskip : (start awaitingEnd.tokens).skipStatement =
      ⟨3, 10, awaitingEnd.tokens.drop 3⟩ := by
    rw [skipStatement, finish_of_some rfl, List.append_nil, finish]
    rfl
  exact ⟨⟨rfl, rfl, rfl⟩, by rw [hskip]; decide⟩

end Cursor

end HdlIndex
