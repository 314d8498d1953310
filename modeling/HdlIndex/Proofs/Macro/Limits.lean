import HdlIndex.Proofs.Macro.FixedPoint
import HdlIndex.Proofs.Preprocess.InProgress

/-! Limits of expansions. `expandInvocation` is given the definitions, and how deep substitutions nest
is the measure of its recursion; here the same work is done on the whole state of a run, with a depth
that is counted up and compared with its limit, with a note of the depth of every substitution, and with
fuel for as many levels as the caller likes. Main statement: with fuel for as many levels as the smaller
of the two limits, the work is done to its end with the same result; there are no more substitutions
than their limit, none as deep as theirs, at most one report of a limit, and nothing of the run changes
but its diagnostics. -/

namespace HdlIndex.Expansion

open Preprocess

/-! ### Counted substitutions -/

/-- A run in the middle of an invocation. -/
structure Metered extends Marked where
  /-- Substitutions counted so far. -/
  expansions : Nat := 0
  reported : Bool := false
  /-- The depths of the substitutions made, in order. -/
  depths : List Nat := []

namespace Metered

def report (m : Metered) (problem : Problem) (t : Lexeme) : Metered :=
  { m with run := m.run.report (.located problem t.file t.start) }

/-- Reports a limit, unless one was reported before. -/
def refuse (m : Metered) (problem : Problem) (call : Lexeme) : Metered :=
  if m.reported then m else { m.report problem call with reported := true }

/-- Counts a substitution at this depth. -/
def substituting (m : Metered) (depth : Nat) : Metered :=
  { m with expansions := m.expansions + 1, depths := m.depths ++ [depth] }

end Metered

/-- Expands the invocations in a list of tokens at a depth. Without fuel there is no result. -/
abbrev MeteredExpander := Nat → List Lexeme → Metered → Option (List Lexeme × Metered)

section

variable (limits : Limits) (inner : MeteredExpander) (depth : Nat)

def meteredParameters (d : MacroDef) (call : Lexeme) (given : Nat) :
    Nat → List Parameter → List (List Lexeme) → Metered →
      Option (List (String × List Lexeme) × Metered)
  | _, [], _, m => some ([], m)
  | index, p :: params, arguments, m =>
    let bound := match arguments.headD [], p.default with
      | [], some tokens => some (tokens.map (bodyLexeme d call), m)
      | [], none =>
        some ([], if given ≤ index then m.report (.missingArgument p.name d.name) call else m)
      | argument, _ => inner (depth + 1) argument m
    bound.bind fun (value, m) =>
      (meteredParameters d call given (index + 1) params arguments.tail m).map fun (values, m) =>
        ((p.name, value) :: values, m)

def meteredSubstitute (d : MacroDef) (arguments : List (List Lexeme)) (call : Lexeme) (m : Metered) :
    Option (Option (List Lexeme) × Metered) :=
  let params := d.params.getD []
  let arguments := if params.isEmpty && arguments == [[]] then [] else arguments
  if params.length < arguments.length then
    some (none, m.report (.tooManyArguments d.name params.length arguments.length) call)
  else
    (meteredParameters inner depth d call arguments.length 0 params arguments m).map
      fun (values, m) => (some (replaceParameters d call values), m)

/-- The replacement of a definition, unless one of the limits is reached. -/
def meteredDefinition (d : MacroDef) (call : Lexeme) (arguments : List (List Lexeme)) (m : Metered) :
    Option (List Lexeme × Metered) :=
  if limits.expansionDepth ≤ depth then
    some ([], m.refuse (.expansionDepth call.name limits.expansionDepth) call)
  else if limits.expansions ≤ m.expansions then
    some ([], m.refuse (.expansionCount call.name limits.expansions) call)
  else
    (meteredSubstitute inner depth d arguments call (m.substituting depth)).bind fun (body, m) =>
      match body with
      | none => some ([], m)
      | some body => inner (depth + 1) (resolveEscapes body) m

def meteredCall (call : Lexeme) (c : Call) (m : Metered) : Option (List Lexeme × Metered) :=
  match c with
  | .literal t => some ([t], m)
  | .problem p => some ([], m.report p call)
  | .definition d arguments => meteredDefinition limits inner depth d call arguments m

/-- Expands tokens with the definitions of the run as it is when an invocation or a conditional is
reached. -/
def meteredFrom (branches : Branches) (m : Metered) :
    List Lexeme → Option (List Lexeme × Metered)
  | [] =>
    match branches.getLast? with
    | some b => some ([], m.report .openBodyConditional b.opener)
    | none => some ([], m)
  | t :: rest =>
    let env := m.run.expansionEnv limits
    if t.kind = .conditional then
      let test := bodyTest env.macros t rest
      match branches.step t test.1 with
      | some branches => meteredFrom branches m test.2
      | none => meteredFrom branches (m.report (.strayBodyConditional t.text) t) test.2
    else if !branches.active then meteredFrom branches m rest
    else if t.kind = .directive then
      let call := readCall env t rest
      (meteredCall limits inner depth t call.1 m).bind fun (expanded, m) =>
        (meteredFrom branches m call.2).map fun (tokens, m) => (expanded ++ tokens, m)
    else (meteredFrom branches m rest).map fun (tokens, m) => (t :: tokens, m)
termination_by tokens => tokens.length
decreasing_by
  · exact Nat.lt_succ_of_le (length_bodyTest_le _ t rest)
  · exact Nat.lt_succ_of_le (length_bodyTest_le _ t rest)
  · simp
  · exact Nat.lt_succ_of_le (length_readCall_le _ t rest)
  · simp

end

/-- Expands all invocations in tokens with fuel for this many levels. -/
def meteredExpand (limits : Limits) : Nat → MeteredExpander
  | 0 => fun _ _ _ => none
  | fuel + 1 => fun depth tokens m => meteredFrom limits (meteredExpand limits fuel) depth [] m tokens

/-- Expands an invocation in source text with fuel for this many levels. -/
def meteredInvocation (limits : Limits) (fuel : Nat) (call : Lexeme) (rest : List Lexeme) (m : Marked) :
    Option (List Lexeme × List Lexeme × Metered) :=
  let (c, behind) := readCall (m.run.expansionEnv limits) call rest
  (meteredCall limits (meteredExpand limits fuel) 0 call c { toMarked := m }).map fun (tokens, m) =>
    (tokens, behind, m)

/-! ### Work in order -/

/-- Reports a limit, unless one was reported before. -/
def Work.refuse (w : Work) (problem : Problem) (call : Lexeme) : Work :=
  if w.reported then w else { w.report problem call with reported := true }

/-- How many reports are about limits. -/
def limitReports (diagnostics : List Diagnostic) : Nat := diagnostics.countP (·.kind == .limit)

/-- Work with substitutions at these depths keeps to the limits. -/
structure Work.Orderly (limits : Limits) (w : Work) (depths : List Nat) : Prop where
  counted : depths.length = w.expansions
  few : w.expansions ≤ limits.expansions
  shallow : ∀ depth ∈ depths, depth < limits.expansionDepth
  once : limitReports w.diagnostics ≤ w.reported.toNat

theorem Work.expansions_refuse (w : Work) (problem : Problem) (call : Lexeme) :
    (w.refuse problem call).expansions = w.expansions := by
  unfold Work.refuse
  split <;> rfl

namespace Work.Orderly

variable {limits : Limits} {w : Work} {depths : List Nat}

theorem empty (limits : Limits) : Orderly limits {} [] where
  counted := rfl
  few := Nat.zero_le _
  shallow := by simp
  once := Nat.le_refl _

/-- A report of anything but a limit does not count. -/
theorem report (h : w.Orderly limits depths) {p : Problem} (hp : p.kind = .expansion) (t : Lexeme) :
    (w.report p t).Orderly limits depths :=
  { h with
    once := by
      simpa [limitReports, Work.report, Diagnostic.located, hp] using h.once }

/-- The first report of a limit is the only one. -/
theorem refuse (h : w.Orderly limits depths) (problem : Problem) (call : Lexeme) :
    (w.refuse problem call).Orderly limits depths := by
  unfold Work.refuse
  split
  · exact h
  · next hreported =>
    have hnone : w.diagnostics.countP (·.kind == .limit) = 0 := by
      simpa [hreported, limitReports] using h.once
    have hone : [Diagnostic.located problem call.file call.start].countP (·.kind == .limit) ≤ 1 :=
      List.countP_le_length
    exact { h with once := by simpa [limitReports, Work.report, List.countP_append, hnone] using hone }

theorem substituting (h : w.Orderly limits depths) (hfew : ¬limits.expansions ≤ w.expansions)
    {depth : Nat} (hdepth : depth < limits.expansionDepth) :
    Orderly limits { w with expansions := w.expansions + 1 } (depths ++ [depth]) where
  counted := by simp [h.counted]
  few := Nat.lt_of_not_le hfew
  shallow := List.forall_mem_append.2 ⟨h.shallow, List.forall_mem_singleton.2 hdepth⟩
  once := h.once

end Work.Orderly

/-- What is wrong with an invocation by itself is not about limits. -/
theorem kind_of_readCall {env : Env} {call : Lexeme} {rest behind : List Lexeme} {p : Problem}
    (h : readCall env call rest = (.problem p, behind)) : p.kind = .expansion := by
  simp only [readCall] at h
  split at h
  · cases h
  · split at h
    · cases h
    · split at h
      · cases h
        split <;> rfl
      · split at h
        · split at h <;> cases h
          rfl
        · cases h

/-! ### The same work -/

/-- The state of a run that started like this, after some work. -/
def Metered.after (start : Marked) (w : Work) (depths : List Nat) : Metered where
  toMarked := { start with run := start.run.noting w.diagnostics }
  expansions := w.expansions
  reported := w.reported
  depths := depths

section

variable {limits : Limits} {start : Marked} {w : Work} {depths : List Nat}

open Metered (after)

theorem report_after (problem : Problem) (t : Lexeme) :
    (after start w depths).report problem t = after start (w.report problem t) depths := by
  simp [Metered.report, after, RunState.report, RunState.noting, Work.report]

theorem refuse_after (problem : Problem) (call : Lexeme) :
    (after start w depths).refuse problem call = after start (w.refuse problem call) depths := by
  rw [Metered.refuse, Work.refuse, report_after]
  change (if w.reported then _ else _) = _
  split_ifs <;> rfl

@[simp] theorem expansionEnv_after :
    (after start w depths).run.expansionEnv limits = start.run.expansionEnv limits := rfl

theorem substituting_after (depth : Nat) :
    (after start w depths).substituting depth =
      after start { w with expansions := w.expansions + 1 } (depths ++ [depth]) := rfl

/-- The metered work ends, with the same result, and it keeps to the limits. -/
def Agrees {α : Type} (limits : Limits) (start : Marked) (w : Work) (result : α × Work)
    (metered : Option (α × Metered)) : Prop :=
  ∃ depths, metered = some (result.1, after start result.2 depths) ∧
    result.2.Orderly limits depths ∧ w.expansions ≤ result.2.expansions

namespace Agrees

variable {α β : Type} {result : α × Work} {metered : Option (α × Metered)}

theorem pure (h : w.Orderly limits depths) (a : α) :
    Agrees limits start w (a, w) (some (a, after start w depths)) :=
  ⟨depths, rfl, h, Nat.le_refl _⟩

theorem report (h : w.Orderly limits depths) {p : Problem} (hp : p.kind = .expansion) (t : Lexeme)
    (a : α) :
    Agrees limits start w (a, w.report p t)
      (some (a, (after start w depths).report p t)) := by
  rw [report_after]
  exact pure (h.report hp t) a

theorem refuse (h : w.Orderly limits depths) (problem : Problem) (call : Lexeme) (a : α) :
    Agrees limits start w (a, w.refuse problem call)
      (some (a, (after start w depths).refuse problem call)) := by
  rw [refuse_after]
  exact ⟨depths, rfl, h.refuse problem call, Nat.le_of_eq (w.expansions_refuse problem call).symm⟩

theorem mono {earlier : Work} (h : Agrees limits start w result metered)
    (hearlier : earlier.expansions ≤ w.expansions) : Agrees limits start earlier result metered := by
  obtain ⟨depths, heq, horderly, hle⟩ := h
  exact ⟨depths, heq, horderly, Nat.le_trans hearlier hle⟩

theorem map (h : Agrees limits start w result metered) (f : α → β) :
    Agrees limits start w (f result.1, result.2) (metered.map fun (a, m) => (f a, m)) := by
  obtain ⟨depths, rfl, horderly, hle⟩ := h
  exact ⟨depths, rfl, horderly, hle⟩

theorem bind {next : β × Work} {meteredNext : α × Metered → Option (β × Metered)}
    (h : Agrees limits start w result metered)
    (hnext : ∀ depths, result.2.Orderly limits depths → w.expansions ≤ result.2.expansions →
      Agrees limits start result.2 next (meteredNext (result.1, after start result.2 depths))) :
    Agrees limits start w next (metered.bind meteredNext) := by
  obtain ⟨depths, rfl, horderly, hle⟩ := h
  exact (hnext depths horderly hle).mono hle

end Agrees

/-- What is expanded one level below this depth, with substitutions under way at all the depths above. -/
def AgreesBelow (limits : Limits) (start : Marked) (depth : Nat) (inner : Expander)
    (metered : MeteredExpander) : Prop :=
  ∀ tokens w depths, w.Orderly limits depths → depth < w.expansions →
    Agrees limits start w (inner tokens w) (metered (depth + 1) tokens (after start w depths))

theorem agrees_parameters {inner : Expander} {metered : MeteredExpander} {depth : Nat}
    (hinner : AgreesBelow limits start depth inner metered) (d : MacroDef) (call : Lexeme)
    (given index : Nat) (params : List Parameter) (arguments : List (List Lexeme))
    (h : w.Orderly limits depths) (hdepth : depth < w.expansions) :
    Agrees limits start w (bindParameters inner d call given index params arguments w)
      (meteredParameters metered depth d call given index params arguments
        (after start w depths)) := by
  induction params generalizing index arguments w depths with
  | nil => exact .pure h []
  | cons p params ih =>
    rw [bindParameters, meteredParameters]
    refine Agrees.bind ?_ fun depths horderly hle =>
      (ih _ _ horderly (Nat.lt_of_lt_of_le hdepth hle)).map _
    cases harguments : arguments.headD [] with
    | cons t argument => exact hinner (t :: argument) _ _ h hdepth
    | nil =>
      cases hdefault : p.default with
      | some tokens => exact .pure h _
      | none =>
        by_cases hgiven : given ≤ index
        · simp only [if_pos hgiven]
          exact .report h rfl call []
        · simp only [if_neg hgiven]
          exact .pure h []

theorem agrees_substitute {inner : Expander} {metered : MeteredExpander} {depth : Nat}
    (hinner : AgreesBelow limits start depth inner metered) (d : MacroDef)
    (arguments : List (List Lexeme)) (call : Lexeme) (h : w.Orderly limits depths)
    (hdepth : depth < w.expansions) :
    Agrees limits start w (substitute inner d arguments call w)
      (meteredSubstitute metered depth d arguments call (after start w depths)) := by
  simp only [substitute, meteredSubstitute]
  generalize (if (d.params.getD []).isEmpty && arguments == [[]] then [] else arguments) = given
  by_cases hmany : (d.params.getD []).length < given.length
  · simp only [if_pos hmany]
    exact .report h rfl call none
  · simp only [if_neg hmany]
    exact (agrees_parameters hinner d call _ 0 _ _ h hdepth).map
      fun values => some (replaceParameters d call values)

section

variable {depth : Nat} {metered : MeteredExpander}
  (hinner : ∀ i ∈ inside (start.run.expansionEnv limits) depth,
    AgreesBelow limits start depth i metered)
include hinner

/-- There is an expander inside as long as the depth is below its limit. -/
theorem agrees_definition (d : MacroDef) (call : Lexeme) (arguments : List (List Lexeme))
    (h : w.Orderly limits depths) (hdepth : depth ≤ w.expansions) :
    Agrees limits start w
      (expandDefinition (start.run.expansionEnv limits)
        (inside (start.run.expansionEnv limits) depth) d call arguments w)
      (meteredDefinition limits metered depth d call arguments (after start w depths)) := by
  have hlimits : (start.run.expansionEnv limits).limits = limits := rfl
  rw [inside_eq, hlimits] at hinner ⊢
  by_cases hshallow : depth < limits.expansionDepth
  · rw [if_pos hshallow] at hinner ⊢
    have hbelow := hinner _ rfl
    simp only [expandDefinition, meteredDefinition, if_neg (Nat.not_le.2 hshallow), hlimits]
    by_cases hmany : limits.expansions ≤ w.expansions
    · have hmany' : limits.expansions ≤ (after start w depths).expansions := hmany
      simp only [if_pos hmany, if_pos hmany']
      exact .refuse h _ call []
    · have hmany' : ¬limits.expansions ≤ (after start w depths).expansions := hmany
      simp only [if_neg hmany, if_neg hmany', substituting_after]
      -- One more substitution is counted than there are levels above, as long as it is under way.
      have hcounted := h.substituting hmany hshallow
      refine (Agrees.bind (agrees_substitute hbelow d arguments call hcounted
        (Nat.lt_succ_of_le hdepth)) fun depths' horderly hle => ?_).mono (Nat.le_succ _)
      generalize substitute _ d arguments call _ = result at horderly hle ⊢
      obtain ⟨body, w'⟩ := result
      cases body with
      | none => exact .pure horderly []
      | some body => exact hbelow _ _ _ horderly (Nat.lt_of_lt_of_le (Nat.lt_succ_of_le hdepth) hle)
  · rw [if_neg hshallow]
    simp only [expandDefinition, meteredDefinition, if_pos (Nat.not_lt.1 hshallow), hlimits]
    exact .refuse h _ call []

theorem agrees_call (call : Lexeme) (rest : List Lexeme) (h : w.Orderly limits depths)
    (hdepth : depth ≤ w.expansions) :
    Agrees limits start w
      (expandCall (start.run.expansionEnv limits) (inside (start.run.expansionEnv limits) depth) call
        (readCall (start.run.expansionEnv limits) call rest).1 w)
      (meteredCall limits metered depth call (readCall (start.run.expansionEnv limits) call rest).1
        (after start w depths)) := by
  cases hcall : (readCall (start.run.expansionEnv limits) call rest).1 with
  | literal t => exact .pure h [t]
  | problem p => exact .report h (kind_of_readCall (Prod.ext hcall rfl)) call []
  | definition d arguments => exact agrees_definition hinner d call arguments h hdepth

/-- A step expands an invocation, passes a conditional or takes a token over, and goes on behind it. -/
theorem agrees_from (branches : Branches) (tokens : List Lexeme) (h : w.Orderly limits depths)
    (hdepth : depth ≤ w.expansions) :
    Agrees limits start w
      (expandFrom (start.run.expansionEnv limits) (inside (start.run.expansionEnv limits) depth)
        branches w tokens)
      (meteredFrom limits metered depth branches (after start w depths) tokens) := by
  revert depths
  fun_induction expandFrom (start.run.expansionEnv limits)
    (inside (start.run.expansionEnv limits) depth) branches w tokens with
  | case1 branches w b hopen =>
    intro depths h
    rw [meteredFrom, hopen]
    exact .report h rfl b.opener []
  | case2 branches w hclosed =>
    intro depths h
    rw [meteredFrom, hclosed]
    exact .pure h []
  | case3 branches w t rest hconditional test branches' hstep ih =>
    intro depths h
    simp only [test] at hstep
    rw [meteredFrom, if_pos hconditional]
    simp only [expansionEnv_after, hstep]
    exact ih hdepth h
  | case4 branches w t rest hconditional test hstep ih =>
    intro depths h
    simp only [test] at hstep
    rw [meteredFrom, if_pos hconditional]
    simp only [expansionEnv_after, hstep, report_after]
    exact ih hdepth (h.report rfl t)
  | case5 branches w t rest hconditional hactive ih =>
    intro depths h
    rw [meteredFrom, if_neg hconditional, if_pos hactive]
    exact ih hdepth h
  | case6 branches w t rest hconditional hactive hdirective call expanded w' hexpanded behind w''
      hbehind ih =>
    intro depths h
    have hcall := agrees_call hinner t rest h hdepth
    rw [meteredFrom, if_neg hconditional, if_neg hactive, if_pos hdirective]
    rw [hexpanded] at hcall
    -- The count only grows, so that the depth stays below it for the tokens behind.
    refine hcall.bind fun depths' horderly hle => ?_
    have hrest := ih (Nat.le_trans hdepth hle) horderly
    rw [hbehind] at hrest
    exact hrest.map (expanded ++ ·)
  | case7 branches w t rest hconditional hactive hdirective behind w' hbehind ih =>
    intro depths h
    have hrest := ih hdepth h
    rw [meteredFrom, if_neg hconditional, if_neg hactive, if_neg hdirective]
    rw [hbehind] at hrest
    exact hrest.map (t :: ·)

end

variable (start) in
/-- Fuel for the levels that are left is enough: where substitutions are under way at all the depths
above, as many were counted. -/
theorem agreesBelow_meteredExpand (fuel : Nat) {depth : Nat}
    (hfuel : min limits.expansionDepth limits.expansions ≤ depth + fuel) :
    ∀ i ∈ inside (start.run.expansionEnv limits) depth,
      AgreesBelow limits start depth i (meteredExpand limits fuel) := by
  induction fuel generalizing depth with
  | zero =>
    intro i hi tokens w depths h hdepth
    have hshallow : depth < limits.expansionDepth := (mem_inside.1 hi).1
    have hfew := h.few
    omega
  | succ fuel ih =>
    intro i hi tokens w depths h hdepth
    obtain ⟨-, rfl⟩ := mem_inside.1 hi
    exact agrees_from (ih (by omega)) [] tokens h hdepth

theorem agrees_invocation (start : Marked) {fuel : Nat}
    (hfuel : min limits.expansionDepth limits.expansions ≤ fuel) (call : Lexeme)
    (rest : List Lexeme) :
    let result := expandAt (start.run.expansionEnv limits) 0 call rest {}
    ∃ depths, meteredInvocation limits fuel call rest start =
        some (result.1, result.2.1, after start result.2.2 depths) ∧
      result.2.2.Orderly limits depths := by
  have hstart : after start {} [] = { toMarked := start } := by simp [after, RunState.noting]
  obtain ⟨depths, hmetered, horderly, -⟩ := agrees_call
    (agreesBelow_meteredExpand start fuel (by simpa using hfuel)) call rest (.empty limits)
    (Nat.zero_le _)
  rw [hstart] at hmetered
  simp only [meteredInvocation, expandAt, hmetered, Option.map_some]
  exact ⟨depths, rfl, horderly⟩

end

/-- An invocation in source text is expanded within the limits, whatever the definitions and the limits
are. With fuel for as many levels as the smaller limit says, the work that counts and compares ends with
the result of `expandInvocation`. It has made no more substitutions than their limit, none at the depth
that is not allowed or deeper, and has reported a limit at most once. Definitions, files in the cache and
files in progress are those from before, and all else of the run but its diagnostics: reading the file
goes on with them. -/
theorem expandInvocation_within_limits (limits : Limits) (start : Marked) (call : Lexeme)
    (rest : List Lexeme) {fuel : Nat}
    (hfuel : min limits.expansionDepth limits.expansions ≤ fuel) :
    ∃ tokens behind w after,
      expandInvocation (start.run.expansionEnv limits) call rest = (tokens, behind, w) ∧
      meteredInvocation limits fuel call rest start = some (tokens, behind, after) ∧
      after.depths.length = w.expansions ∧ w.expansions ≤ limits.expansions ∧
      (∀ depth ∈ after.depths, depth < limits.expansionDepth) ∧
      limitReports w.diagnostics ≤ 1 ∧
      after.toMarked = { start with run := start.run.noting w.diagnostics } ∧
      ∀ (env : Preprocess.Env) (nested : MarkedProcess) (calls : List Path) (depth : Nat)
        (file text : String) (st : FileState), env.options.limits = limits → call.kind = .directive →
          FileDirective.ofName call.name = .invocation →
            markedScan env nested calls depth file text st start (call :: rest) =
              markedScan env nested calls depth file text
                { st with out := emitExpansion st.out tokens } after.toMarked behind := by
  obtain ⟨depths, hmetered, horderly⟩ := agrees_invocation start hfuel call rest
  rw [← expandInvocation_eq_expandAt] at hmetered horderly
  generalize hexpand : expandInvocation (start.run.expansionEnv limits) call rest = result
    at hmetered horderly ⊢
  obtain ⟨tokens, behind, w⟩ := result
  refine ⟨tokens, behind, w, _, rfl, hmetered, horderly.counted, horderly.few, horderly.shallow,
    Nat.le_trans horderly.once (Bool.toNat_le _), rfl, ?_⟩
  rintro env nested calls depth file text st rfl hkind hname
  rw [markedScan]
  simp only [Item.read, hkind, Item.directive, hname, hexpand]
  rfl

/-- Two definitions that invoke each other, one of them twice. -/
def mutualRun : RunState where
  cache := .empty
  macros := ⟨[
    { name := "A", params := none, body := [⟨"`B", .directive, 10, 12⟩, ⟨"`B", .directive, 12, 14⟩]
      origin := some "a.sv", span := (0, 14), nameSpan := (8, 9) },
    { name := "B", params := none, body := [⟨"`A", .directive, 25, 27⟩]
      origin := some "a.sv", span := (15, 27), nameSpan := (23, 24) }]⟩

theorem expandInvocation_within_limits_mutual :
    ∃ w after,
      meteredInvocation { expansions := 3 } 3 ⟨"`A", .directive, 28, 30, "a.sv"⟩ []
          ⟨mutualRun, [], []⟩ = some ([], [], after) ∧
        expandInvocation (mutualRun.expansionEnv { expansions := 3 })
          ⟨"`A", .directive, 28, 30, "a.sv"⟩ [] = ([], [], w) ∧
        after.depths = [0, 1, 2] ∧ w.expansions = 3 ∧ limitReports w.diagnostics = 1 ∧
        after.run = mutualRun.noting w.diagnostics ∧
        markedScan ⟨Files.empty.provider, { limits := { expansions := 3 } }⟩ (fun _ _ _ _ _ => none) []
            0 "a.sv" "" {} ⟨mutualRun, [], []⟩ [⟨"`A", .directive, 28, 30, "a.sv"⟩] =
          markedScan ⟨Files.empty.provider, { limits := { expansions := 3 } }⟩ (fun _ _ _ _ _ => none)
            [] 0 "a.sv" "" { out := emitExpansion {} [] } after.toMarked [] := by
  have hresult : (meteredInvocation { expansions := 3 } 3 ⟨"`A", .directive, 28, 30, "a.sv"⟩ []
      ⟨mutualRun, [], []⟩).map (fun r => (r.1, r.2.1, r.2.2.depths,
        limitReports r.2.2.run.diagnostics)) = some ([], [], [0, 1, 2], 1) := by
    decide +kernel
  obtain ⟨tokens, behind, w, after, hexpand, hmetered, hcounted, -, -, -, hafter, hscan⟩ :=
    expandInvocation_within_limits { expansions := 3 } ⟨mutualRun, [], []⟩
      ⟨"`A", .directive, 28, 30, "a.sv"⟩ [] (show min 128 3 ≤ 3 by decide)
  rw [hmetered] at hresult
  simp only [Option.map_some, Option.some.injEq, Prod.mk.injEq] at hresult
  obtain ⟨rfl, rfl, hdepths, honce⟩ := hresult
  have hrun : after.run = mutualRun.noting w.diagnostics := congrArg Marked.run hafter
  rw [hrun] at honce
  rw [hdepths] at hcounted
  exact ⟨w, after, hmetered, hexpand, hdepths, hcounted.symm, honce, hrun,
    hscan _ _ _ _ _ _ _ rfl rfl (by decide)⟩

end HdlIndex.Expansion
