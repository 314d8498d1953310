import HdlIndex.Proofs.Grammar.Snapshots
import HdlIndex.Proofs.Grammar.Tiling
import Mathlib.Logic.Relation

/-! Points of a scan. A scan goes from point to point, over a character that no rule matches or over a
match, and what comes of it can be told from any point on its way. Main statements: what a step can be,
a step over a match with a single token, and that a scan that does not fail comes to the end of the
text. -/

namespace HdlIndex.Grammar

/-- Where a scan stands in a text. -/
structure ScanPoint where
  state : ScanState
  /-- Byte offset of the rest. -/
  offset : Nat
  /-- The characters in front that no rule matched, the last one first. -/
  pending : List Char
  out : Array Token
  rest : List Char
  deriving DecidableEq, Repr

/-- Where a scan of a text starts. -/
def startPoint (g : Grammar) (text : String) (scopes : Option (List String)) : ScanPoint :=
  ⟨g.startState scopes, 0, [], #[], text.toList⟩

/-- What comes of a scan from a point on. -/
def result (g : Grammar) (p : ScanPoint) : Except Violation (Array Token) :=
  g.scanFrom p.state p.offset p.pending p.out p.rest

/-- All tokens in front of a point, that of the unmatched characters included. -/
def flushed (g : Grammar) (p : ScanPoint) : Array Token :=
  p.out ++ g.unmatchedToken p.state.current.scopes.reverse p.offset p.pending

/-- The token of some characters that come next. -/
def ScanPoint.token (p : ScanPoint) (piece : List Char) (scope : Option String) : Token :=
  ⟨.ofList piece, p.offset, p.state.current.scopes.reverse ++ scope.toList⟩

@[simp] theorem text_token (p : ScanPoint) (piece : List Char) (scope : Option String) :
    (p.token piece scope).text = .ofList piece := rfl

@[simp] theorem scopes_token (p : ScanPoint) (piece : List Char) (scope : Option String) :
    (p.token piece scope).scopes = p.state.current.scopes.reverse ++ scope.toList := rfl

/-- The number of the context that a scan is in. -/
def contextIn (g : Grammar) (s : Stacks) : Nat := (s.frames.head?.map (·.context)).getD g.main

/-- The rules of a context. -/
def rulesAt (g : Grammar) (context : Nat) : List Rule := (g.contexts[context]?.map (·.rules)).getD []

/-- The point that a scan comes to next, unless it ends or fails. -/
def step? (g : Grammar) (p : ScanPoint) : Option ScanPoint :=
  match p.rest with
  | [] => none
  | c :: cs =>
    match firstMatch (g.rulesAt (g.contextIn p.state.current)) (c :: cs) with
    | none => some { p with offset := p.offset + c.utf8Size, pending := c :: p.pending, rest := cs }
    | some (rule, m) =>
      if m.stop = 0 then none
      else
        let tokens? := matchTokens p.offset (c :: cs) p.state.current.scopes.reverse rule m
        tokens?.map fun (tokens : List Token) =>
          { state := g.applyRule p.state rule
            offset := p.offset + Text.byteSize ((c :: cs).take m.stop)
            pending := []
            out := g.flushed p ++ tokens
            rest := (c :: cs).drop m.stop }

/-- A scan goes from one point to another. -/
def Leads (g : Grammar) : ScanPoint → ScanPoint → Prop :=
  Relation.ReflTransGen fun p q => g.step? p = some q

theorem append_tokens (out : Array Token) (tokens more : List Token) :
    out ++ tokens ++ more = out ++ (tokens ++ more) := by
  rw [← Array.toList_inj, Array.toList_appendList, Array.toList_appendList, Array.toList_appendList,
    List.append_assoc]

variable {g : Grammar} {p q r : ScanPoint}

theorem result_startPoint (text : String) (scopes : Option (List String)) :
    g.scan text scopes = (g.result (g.startPoint text scopes)).map (·.toList) := rfl

theorem contextIn_of_frames {s : Stacks} {context scopeBase : Nat} {frames : List Frame}
    (h : s.frames = ⟨context, scopeBase⟩ :: frames) : g.contextIn s = context := by
  rw [contextIn, h, List.head?_cons, Option.map_some, Option.getD_some]

/-! ### Steps -/

theorem step?_unmatched {c : Char} {cs : List Char} (hrest : p.rest = c :: cs)
    (h : firstMatch (g.rulesAt (g.contextIn p.state.current)) (c :: cs) = none) :
    g.step? p =
      some { p with offset := p.offset + c.utf8Size, pending := c :: p.pending, rest := cs } := by
  rw [step?, hrest]
  dsimp only
  rw [h]

theorem step?_matched {piece rest : List Char} {rule : Rule} {m : Match} {tokens : List Token}
    (hrest : p.rest = piece ++ rest) (hpiece : piece ≠ [])
    (h : firstMatch (g.rulesAt (g.contextIn p.state.current)) p.rest = some (rule, m))
    (hstop : m.stop = piece.length)
    (htokens : matchTokens p.offset p.rest p.state.current.scopes.reverse rule m = some tokens) :
    g.step? p = some ⟨g.applyRule p.state rule, p.offset + Text.byteSize piece, [],
      g.flushed p ++ tokens, rest⟩ := by
  obtain ⟨c, cs, hcs⟩ := List.exists_cons_of_ne_nil (show p.rest ≠ [] by simp [hrest, hpiece])
  rw [hcs] at h htokens
  rw [step?, hcs]
  dsimp only
  rw [h]
  dsimp only
  rw [if_neg (by rw [hstop]; simpa using hpiece), htokens, ← hcs, hrest, hstop, List.take_left,
    List.drop_left]
  rfl

/-- A match of a rule without groups is one token. -/
theorem step?_single {piece rest : List Char} {rule : Rule} {m : Match} {scope : Option String}
    (hrest : p.rest = piece ++ rest) (hpiece : piece ≠ [])
    (h : firstMatch (g.rulesAt (g.contextIn p.state.current)) p.rest = some (rule, m))
    (hstart : m.start = 0) (hstop : m.stop = piece.length) (hscope : rule.scopes = [scope]) :
    g.step? p = some ⟨g.applyRule p.state rule, p.offset + Text.byteSize piece, [],
      g.flushed p ++ [p.token piece scope], rest⟩ := by
  refine step?_matched hrest hpiece h hstop ?_
  rw [matchTokens, hscope, hstart, hstop, hrest, List.take_left]
  rfl

/-- What a step can be: over a character that no rule matches, or over a match that reads something
and keeps the contract. -/
inductive Stepped (g : Grammar) (p : ScanPoint) : ScanPoint → Prop
  | unmatched {c : Char} {cs : List Char} (hrest : p.rest = c :: cs)
      (hfirst : firstMatch (g.rulesIn p.state.current) p.rest = none) :
      Stepped g p { p with offset := p.offset + c.utf8Size, pending := c :: p.pending, rest := cs }
  | matched {rule : Rule} {m : Match} {tokens : List Token} (hne : p.rest ≠ [])
      (hfirst : firstMatch (g.rulesIn p.state.current) p.rest = some (rule, m)) (hstop : 0 < m.stop)
      (htokens : matchTokens p.offset p.rest p.state.current.scopes.reverse rule m = some tokens) :
      Stepped g p ⟨g.applyRule p.state rule, p.offset + Text.byteSize (p.rest.take m.stop), [],
        g.flushed p ++ tokens, p.rest.drop m.stop⟩

theorem stepped_of_step? (h : g.step? p = some q) : g.Stepped p q := by
  obtain ⟨state, offset, pending, out, rest⟩ := p
  cases rest with
  | nil => cases h
  | cons c cs =>
    rcases hfirst : firstMatch (g.rulesAt (g.contextIn state.current)) (c :: cs) with _ | ⟨rule, m⟩
    · rw [step?_unmatched rfl hfirst] at h
      cases h
      exact .unmatched rfl hfirst
    · rw [step?] at h
      dsimp only at h
      rw [hfirst] at h
      dsimp only at h
      split at h
      · cases h
      · next hstop =>
        obtain ⟨tokens, htokens, rfl⟩ := Option.map_eq_some_iff.1 h
        exact .matched (List.cons_ne_nil c cs) hfirst (Nat.pos_of_ne_zero hstop) htokens

/-- What comes of a scan is the same at all points on its way. -/
theorem result_of_step? (h : g.step? p = some q) : g.result p = g.result q := by
  obtain ⟨state, offset, pending, out, rest⟩ := p
  cases stepped_of_step? h with
  | unmatched hrest hfirst =>
    obtain rfl : rest = _ := hrest
    exact scanFrom_of_unmatched hfirst
  | matched hne hfirst hstop htokens =>
    obtain ⟨c, cs, rfl⟩ := List.exists_cons_of_ne_nil hne
    exact scanFrom_of_match hfirst hstop htokens

/-- Each step acts on the state by effects of a rule, or not at all. -/
theorem entered_of_step? (h : g.step? p = some q) (hp : p.state.Entered) : q.state.Entered := by
  cases stepped_of_step? h with
  | unmatched => exact hp
  | matched =>
    rw [applyRule_eq_applyEffects]
    exact hp.applyEffects _

/-- A scan that does not fail goes on until nothing is left. -/
theorem exists_step?_of_result {out : Array Token} (h : g.result p = .ok out) (hne : p.rest ≠ []) :
    ∃ q, g.step? p = some q := by
  obtain ⟨state, offset, pending, done, rest⟩ := p
  obtain ⟨c, cs, rfl⟩ := List.exists_cons_of_ne_nil hne
  rcases step_of_scanFrom_ok h with hfirst | ⟨rule, m, tokens, hfirst, hstop, htokens⟩
  · exact ⟨_, step?_unmatched rfl hfirst⟩
  · rw [step?]
    dsimp only
    have hmatch : firstMatch (g.rulesAt (g.contextIn state.current)) (c :: cs) = some (rule, m) :=
      hfirst
    rw [hmatch]
    dsimp only
    rw [if_neg (Nat.ne_of_gt hstop), htokens]
    exact ⟨_, rfl⟩

theorem Stepped.length_lt (h : g.Stepped p q) : q.rest.length < p.rest.length := by
  cases h with
  | unmatched hrest => simp [hrest]
  | matched hne _ hstop =>
    have hpositive := List.length_pos_iff.2 hne
    rw [List.length_drop]
    omega

/-! ### Ways -/

theorem Leads.refl (p : ScanPoint) : g.Leads p p := Relation.ReflTransGen.refl

theorem Leads.trans (h : g.Leads p q) (h' : g.Leads q r) : g.Leads p r :=
  Relation.ReflTransGen.trans h h'

theorem Leads.step (h : g.step? p = some q) (h' : g.Leads q r) : g.Leads p r :=
  Relation.ReflTransGen.head h h'

/-- There is one way only. -/
theorem Leads.cases_step (h : g.Leads p r) (hstep : g.step? p = some q) : r = p ∨ g.Leads q r := by
  rcases Relation.ReflTransGen.cases_head h with rfl | ⟨next, hnext, hr⟩
  · exact .inl rfl
  · obtain rfl := Option.some.inj (hstep.symm.trans hnext)
    exact .inr hr

/-- No way leads on from the end of a text. -/
theorem Leads.eq_of_nil (h : g.Leads p r) (hrest : p.rest = []) : r = p := by
  rcases Relation.ReflTransGen.cases_head h with rfl | ⟨next, hnext, -⟩
  · rfl
  · rw [step?, hrest] at hnext
    cases hnext

theorem Leads.result_eq (h : g.Leads p q) : g.result p = g.result q := by
  induction h with
  | refl => rfl
  | tail _ hstep ih => rw [ih, result_of_step? hstep]

/-- A scan that does not fail comes to the end of the text, and its tokens are those found there. -/
theorem exists_leads_of_result {out : Array Token} (h : g.result p = .ok out) :
    ∃ q, g.Leads p q ∧ q.rest = [] ∧ g.flushed q = out := by
  induction hn : p.rest.length using Nat.strong_induction_on generalizing p with
  | _ n ih =>
    subst hn
    by_cases hne : p.rest = []
    · refine ⟨p, .refl p, hne, ?_⟩
      rw [result, hne, scanFrom] at h
      exact Except.ok.inj h
    · obtain ⟨q, hstep⟩ := exists_step?_of_result h hne
      obtain ⟨r, hr, hend⟩ := ih _ (stepped_of_step? hstep).length_lt
        ((result_of_step? hstep).symm.trans h) rfl
      exact ⟨r, .step hstep hr, hend⟩

theorem entered_startState (scopes : Option (List String)) : (g.startState scopes).Entered where
  current := List.cons_ne_nil _ _
  saved s hs := by cases hs

/-- There is a current context wherever a scan leads. -/
theorem Leads.entered (h : g.Leads p q) (hp : p.state.Entered) : q.state.Entered := by
  induction h with
  | refl => exact hp
  | tail _ hstep ih => exact entered_of_step? hstep ih

/-- The tokens of a text, from those in front of a point and those that come of the scan from there. -/
theorem tokenize_of_leads {text : String} {scopes : Option (List String)} {out : Array Token}
    (h : g.Leads (g.startPoint text scopes) p) (hout : g.result p = .ok out) :
    g.tokenize text scopes = out.toList := by
  have hscan : g.scan text scopes = .ok out.toList := by
    rw [result_startPoint, h.result_eq, hout]
    rfl
  rw [tokenize, hscan]

end HdlIndex.Grammar
