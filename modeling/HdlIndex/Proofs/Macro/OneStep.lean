import HdlIndex.Proofs.Macro.Arguments
import HdlIndex.Proofs.Macro.Escapes
import HdlIndex.Proofs.Macro.FixedPoint
import Mathlib.Data.List.TakeWhile

/-! Expansion in one step. Where neither the definition nor the arguments hold anything that is
expanded or resolved, an invocation with arguments stands for the body with the parameters replaced,
all at once. Main statement: the replacement of such an invocation, token by token and with the place
of each, what is left behind it, and what is counted and reported. -/

namespace HdlIndex

/-- Whether an expansion leaves tokens of this kind as they are: they are neither invocations nor
conditionals nor escapes. -/
def LexKind.isInert (k : LexKind) : Bool := k != .directive && k != .conditional && !k.isEscape

/-- A token of a definition that stands in the given file. -/
def BodyToken.inFile (t : BodyToken) (file : String) : Lexeme :=
  ⟨t.text, t.kind, t.start, t.stop, file⟩

/-- What a parameter of a definition in the given file stands for: the argument without the trivia at
its ends, or the default if nothing is left of it, or nothing if there is no default. -/
def Parameter.value (p : Parameter) (file : String) (argument : List Lexeme) : List Lexeme :=
  match trimBoth Lexeme.isTrivia argument with
  | [] => (p.default.getD []).map (·.inFile file)
  | actual => actual

theorem Parameter.value_of_empty (p : Parameter) (file : String) {argument : List Lexeme}
    (h : trimBoth Lexeme.isTrivia argument = []) :
    p.value file argument = (p.default.getD []).map (·.inFile file) := by
  rw [value, h]

theorem Parameter.value_of_actual (p : Parameter) (file : String) {argument actual : List Lexeme}
    {t : Lexeme} (h : trimBoth Lexeme.isTrivia argument = t :: actual) :
    p.value file argument = t :: actual := by
  rw [value, h]

namespace Expansion

/-- What the parameters stand for, by name. The arguments are those of the first parameters. -/
def parameterValues (file : String) (params : List Parameter) (arguments : List (List Lexeme)) :
    List (String × List Lexeme) :=
  params.zipIdx.map fun (p, i) => (p.name, p.value file (arguments.getD i []))

/-- The body of a definition in the given file, with names replaced by what they stand for. -/
def replacedBody (d : MacroDef) (file : String) (values : List (String × List Lexeme)) : List Lexeme :=
  d.body.flatMap fun t =>
    match values.lookup t.text with
    | some value => if t.kind = .identifier then value else [t.inFile file]
    | none => [t.inFile file]

/-- The problem of each parameter without a default that is given no argument. -/
def missingArguments (d : MacroDef) (params : List Parameter) (given : Nat) : List Problem :=
  ((params.drop given).filter (·.default.isNone)).map fun p => .missingArgument p.name d.name

def Work.reportAll (w : Work) (problems : List Problem) (t : Lexeme) : Work :=
  { w with diagnostics := w.diagnostics ++ problems.map fun p => .located p t.file t.start }

@[simp]
theorem Work.reportAll_nil (w : Work) (t : Lexeme) : w.reportAll [] t = w := by
  simp [Work.reportAll]

theorem Work.reportAll_reportAll (w : Work) (problems others : List Problem) (t : Lexeme) :
    (w.reportAll problems t).reportAll others t = w.reportAll (problems ++ others) t := by
  simp [Work.reportAll]

section

variable {d : MacroDef} {file : String} {call : Lexeme} {tokens : List Lexeme}

/-! ### Inert tokens -/

theorem isPlain_of_isInert {t : Lexeme} (h : t.kind.isInert) : t.isPlain := by
  simp only [LexKind.isInert, Bool.and_eq_true, bne_iff_ne] at h
  simp [Lexeme.isPlain, h.1.1, h.1.2]

theorem not_isEscape_of_isInert {k : LexKind} (h : k.isInert) : k.isEscape = false := by
  simp only [LexKind.isInert, Bool.and_eq_true, Bool.not_eq_true'] at h
  exact h.2

theorem isInert_inFile {t : BodyToken} (h : t.kind.isInert) : (t.inFile file).kind.isInert := h

/-! ### Values -/

theorem parameterValues_cons (file : String) (p : Parameter) (params : List Parameter)
    (arguments : List (List Lexeme)) :
    parameterValues file (p :: params) arguments =
      (p.name, p.value file (arguments.headD [])) :: parameterValues file params arguments.tail := by
  unfold parameterValues
  rw [List.zipIdx_cons, List.zipIdx_succ, List.map_cons, List.map_map]
  cases arguments <;> simp [Function.comp_def]

theorem map_fst_parameterValues (file : String) (params : List Parameter)
    (arguments : List (List Lexeme)) :
    (parameterValues file params arguments).map (·.1) = params.map (·.name) := by
  induction params generalizing arguments with
  | nil => rfl
  | cons p params ih => rw [parameterValues_cons, List.map_cons, List.map_cons, ih]

/-- Of different names each has one value, and it does not matter from which end it is looked for. -/
theorem valueOf?_eq_lookup {values : List (String × List Lexeme)} (h : (values.map (·.1)).Nodup)
    (name : String) : valueOf? values name = values.lookup name := by
  unfold valueOf?
  induction values with
  | nil => rfl
  | cons entry values ih =>
    obtain ⟨hentry, hvalues⟩ := List.nodup_cons.1 h
    rw [List.reverse_cons, List.find?_append, List.lookup_cons]
    by_cases hname : entry.1 = name
    · have hnone : values.reverse.find? (·.1 == name) = none := by
        refine List.find?_eq_none.2 fun e he heq => hentry ?_
        exact List.mem_map.2 ⟨e, List.mem_reverse.1 he, (beq_iff_eq.1 heq).trans hname.symm⟩
      simp [hnone, hname]
    · have hother : (name == entry.1) = false := beq_eq_false_iff_ne.2 (Ne.symm hname)
      simp [hother, hname, ← ih hvalues]

theorem isInert_value {p : Parameter} (hdefault : ∀ t ∈ p.default.getD [], t.kind.isInert)
    {argument : List Lexeme} (hargument : ∀ t ∈ argument, t.kind.isInert) :
    ∀ t ∈ p.value file argument, t.kind.isInert := by
  unfold Parameter.value
  split
  · exact List.forall_mem_map.2 fun t ht => isInert_inFile (hdefault t ht)
  · exact fun t ht => hargument t (mem_of_mem_trimBoth ht)

theorem isInert_parameterValues (file : String) {params : List Parameter}
    (hdefaults : ∀ p ∈ params, ∀ t ∈ p.default.getD [], t.kind.isInert)
    {arguments : List (List Lexeme)} (harguments : ∀ a ∈ arguments, ∀ t ∈ a, t.kind.isInert) :
    ∀ entry ∈ parameterValues file params arguments, ∀ t ∈ entry.2, t.kind.isInert := by
  induction params generalizing arguments with
  | nil => simp [parameterValues]
  | cons p params ih =>
    obtain ⟨hdefault, hdefaults⟩ := List.forall_mem_cons.1 hdefaults
    rw [parameterValues_cons]
    refine List.forall_mem_cons.2 ⟨isInert_value hdefault ?_, ih hdefaults fun a ha =>
      harguments a (List.mem_of_mem_tail ha)⟩
    cases arguments with
    | nil => simp
    | cons a _ => exact harguments a List.mem_cons_self

theorem isInert_replacedBody (file : String) (hbody : ∀ t ∈ d.body, t.kind.isInert)
    {values : List (String × List Lexeme)}
    (hvalues : ∀ entry ∈ values, ∀ t ∈ entry.2, t.kind.isInert) :
    ∀ t ∈ replacedBody d file values, t.kind.isInert := by
  intro t ht
  obtain ⟨b, hb, ht⟩ := List.mem_flatMap.1 ht
  have hplaced : ∀ t ∈ [b.inFile file], t.kind.isInert :=
    List.forall_mem_singleton.2 (isInert_inFile (hbody b hb))
  split at ht
  · next value hvalue =>
    split at ht
    · obtain ⟨front, behind, hsplit, -⟩ := List.lookup_eq_some_iff.1 hvalue
      exact hvalues (b.text, value) (by simp [hsplit]) t ht
    · exact hplaced t ht
  · exact hplaced t ht

/-! ### Substitution -/

theorem bodyLexeme_eq_inFile (horigin : d.origin = some file) (call : Lexeme) (t : BodyToken) :
    bodyLexeme d call t = t.inFile file := by
  rw [bodyLexeme, horigin]
  rfl

theorem replaceParameters_eq_replacedBody (horigin : d.origin = some file) (call : Lexeme)
    {values : List (String × List Lexeme)} (h : (values.map (·.1)).Nodup) :
    replaceParameters d call values = replacedBody d file values := by
  unfold replaceParameters replacedBody
  congr 1
  funext t
  rw [valueOf?_eq_lookup h, bodyLexeme_eq_inFile horigin]
  cases values.lookup t.text with
  | none => cases t.kind <;> rfl
  | some value => cases t.kind <;> rfl

/-- The problem of the parameter at this place, if it has no default and is given no argument. -/
theorem missingArguments_cons (d : MacroDef) (p : Parameter) (params : List Parameter)
    (given index : Nat) :
    missingArguments d (p :: params) (given - index) =
      (if given ≤ index ∧ p.default = none then [.missingArgument p.name d.name] else []) ++
        missingArguments d params (given - (index + 1)) := by
  unfold missingArguments
  by_cases hgiven : given ≤ index
  · have hzero : given - index = 0 ∧ given - (index + 1) = 0 := by omega
    cases hdefault : p.default <;> simp [hzero, hgiven, hdefault]
  · have hsucc : given - index = given - (index + 1) + 1 := by omega
    simp [hsucc, hgiven]

section

variable {inner : Expander}
  (hinner : ∀ tokens w, (∀ t ∈ tokens, t.isPlain) → inner tokens w = (tokens, w))
  (horigin : d.origin = some file)
include hinner horigin

/-- A parameter takes its argument as it is, which is expanded to itself. -/
theorem bindParameters_cons_of_inert (call : Lexeme) (given index : Nat) (p : Parameter)
    (params : List Parameter) {arguments : List (List Lexeme)}
    (harguments : ∀ a ∈ arguments, ∀ t ∈ a, t.kind.isInert)
    (hgiven : given ≤ index → arguments = []) (w : Work) :
    bindParameters inner d call given index (p :: params)
        (arguments.map (trimBoth Lexeme.isTrivia)) w =
      let (values, w) := bindParameters inner d call given (index + 1) params
        (arguments.tail.map (trimBoth Lexeme.isTrivia))
        (w.reportAll
          (if given ≤ index ∧ p.default = none then [.missingArgument p.name d.name] else []) call)
      ((p.name, p.value file (arguments.headD [])) :: values, w) := by
  have hreport (w : Work) (problem : Problem) : w.reportAll [problem] call = w.report problem call :=
    rfl
  have hplaced := funext (bodyLexeme_eq_inFile horigin call)
  have hempty (hargument : trimBoth Lexeme.isTrivia (arguments.headD []) = []) :
      bindParameters inner d call given index (p :: params)
          (arguments.map (trimBoth Lexeme.isTrivia)) w =
        bindParameters inner d call given index (p :: params)
          ([] :: arguments.tail.map (trimBoth Lexeme.isTrivia)) w := by
    cases arguments with
    | nil => rfl
    | cons argument arguments => rw [List.map_cons, ← hargument]; rfl
  -- Nothing but trivia is a missing argument; whether it is reported depends on `given` alone.
  cases hargument : trimBoth Lexeme.isTrivia (arguments.headD []) with
  | nil =>
    rw [hempty hargument, bindParameters, p.value_of_empty file hargument]
    cases hdefault : p.default with
    | some tokens => simp [hplaced]
    | none => by_cases hindex : given ≤ index <;> simp [hindex, hreport]
  | cons t actual =>
    cases arguments with
    | nil => cases hargument
    | cons argument arguments =>
      have hplain : ∀ u ∈ t :: actual, u.isPlain := fun u hu => isPlain_of_isInert
        (harguments argument List.mem_cons_self u (mem_of_mem_trimBoth (hargument ▸ hu)))
      have hindex : ¬given ≤ index := fun h => List.cons_ne_nil _ _ (hgiven h)
      rw [List.headD_cons] at hargument
      rw [List.map_cons, List.headD_cons, hargument, bindParameters, p.value_of_actual file hargument]
      simp [hindex, hinner _ _ hplain]

/-- Parameters take inert arguments as they are. `index` is the number of parameters in front, which
have taken their arguments already. -/
theorem bindParameters_of_inert (call : Lexeme) (given index : Nat) (params : List Parameter)
    {arguments : List (List Lexeme)} (harguments : ∀ a ∈ arguments, ∀ t ∈ a, t.kind.isInert)
    (hlength : arguments.length = given - index) (w : Work) :
    bindParameters inner d call given index params (arguments.map (trimBoth Lexeme.isTrivia)) w =
      (parameterValues file params arguments,
        w.reportAll (missingArguments d params (given - index)) call) := by
  induction params generalizing index arguments w with
  | nil => simp [bindParameters, parameterValues, missingArguments]
  | cons p params ih =>
    have hgiven : given ≤ index → arguments = [] := fun h =>
      List.eq_nil_of_length_eq_zero (by omega)
    have htail : ∀ a ∈ arguments.tail, ∀ t ∈ a, t.kind.isInert := fun a ha =>
      harguments a (List.mem_of_mem_tail ha)
    rw [bindParameters_cons_of_inert hinner horigin call given index p params harguments hgiven,
      ih (index + 1) htail (by rw [List.length_tail]; omega), parameterValues_cons,
      missingArguments_cons, Work.reportAll_reportAll]

/-- With no more arguments than parameters, or with nothing but trivia for a definition without
parameters, each parameter takes its argument, and the body is put together. -/
theorem substitute_of_inert (call : Lexeme) {params : List Parameter} (hparams : d.params = some params)
    (hnames : (params.map (·.name)).Nodup) (l : ArgumentList)
    (harguments : ∀ a ∈ l.arguments, ∀ t ∈ a, t.kind.isInert)
    (hcount : l.arguments.length ≤ params.length ∨
      params = [] ∧ l.others = [] ∧ ∀ t ∈ l.first, t.isTrivia) (w : Work) :
    substitute inner d (l.arguments.map (trimBoth Lexeme.isTrivia)) call w =
      (some (replacedBody d file (parameterValues file params l.arguments)),
        w.reportAll (missingArguments d params l.arguments.length) call) := by
  have hvalues : ((parameterValues file params l.arguments).map (·.1)).Nodup := by
    rwa [map_fst_parameterValues]
  simp only [substitute, hparams, Option.getD_some]
  rcases hcount with hlength | ⟨rfl, hothers, htrivia⟩
  · have hsome : params.isEmpty = false := by
      cases params with
      | nil => simp [ArgumentList.arguments] at hlength
      | cons p params => rfl
    rw [hsome, Bool.false_and, if_neg Bool.false_ne_true, if_neg (by simpa using hlength),
      bindParameters_of_inert hinner horigin call _ 0 params harguments (by simp)]
    simp [replaceParameters_eq_replacedBody horigin call hvalues]
  · have hnothing : l.arguments.map (trimBoth Lexeme.isTrivia) = [[]] := by
      have hempty : l.first.reverse.dropWhile Lexeme.isTrivia = [] := by
        simpa [List.dropWhile_eq_nil_iff] using htrivia
      simp [ArgumentList.arguments, hothers, trimBoth, hempty]
    have hbody : replaceParameters d call [] = replacedBody d file [] :=
      replaceParameters_eq_replacedBody horigin call List.nodup_nil
    simp [hnothing, bindParameters, missingArguments, parameterValues, hbody]

end

/-- An invocation with arguments is expanded in one step, if neither the definition nor the arguments
hold invocations, conditionals or escapes. For a definition of a file with different parameters, and
between one argument and one for each parameter (nothing but trivia for no parameter), below both
limits, the replacement is the body, in which all names of parameters are replaced at once by their
arguments without the trivia at the ends, or by the default for an empty or missing argument, or by
nothing; every other token is that of the definition, at its place there. What is left are the tokens
behind the closing bracket; one substitution is counted, and each parameter without argument and
default is reported. The names of the two invocations that are known without a definition are
excepted. -/
theorem expandAt_of_inert {env : Env} {depth : Nat} {call : Lexeme} {w : Work} {d : MacroDef}
    {file : String} {params : List Parameter} (l : ArgumentList) (behind : List Lexeme)
    (hfile : call.name ≠ "__FILE__") (hline : call.name ≠ "__LINE__")
    (hd : env.macros.get? call.name = some d) (horigin : d.origin = some file)
    (hparams : d.params = some params) (hnames : (params.map (·.name)).Nodup)
    (htokens : ∀ t ∈ d.tokens, t.kind.isInert)
    (harguments : ∀ a ∈ l.arguments, ∀ t ∈ a, t.kind.isInert)
    (hcount : l.arguments.length ≤ params.length ∨
      params = [] ∧ l.others = [] ∧ ∀ t ∈ l.first, t.isTrivia)
    (hdepth : depth < env.limits.expansionDepth) (hbudget : w.expansions < env.limits.expansions) :
    expandAt env depth call (l.tokens ++ behind) w =
      (replacedBody d file (parameterValues file params l.arguments), behind,
        ({ w with expansions := w.expansions + 1 } : Work).reportAll
          (missingArguments d params l.arguments.length) call) := by
  have hinner (tokens : List Lexeme) (w : Work) (h : ∀ t ∈ tokens, t.isPlain) :
      expandTokens env (depth + 1) tokens w = (tokens, w) := expandFrom_of_plain env _ w h
  have hbody : ∀ t ∈ d.body, t.kind.isInert := fun t ht => htokens t (List.mem_append_left _ ht)
  have hdefaults : ∀ p ∈ params, ∀ t ∈ p.default.getD [], t.kind.isInert := fun p hp t ht =>
    htokens t (List.mem_append_right _ (List.mem_flatMap.2 ⟨p, by simpa [hparams] using hp, ht⟩))
  have hresult := isInert_replacedBody file hbody
    (isInert_parameterValues file hdefaults harguments)
  have hresolved := resolveEscapes_of_not_escape fun t ht => not_isEscape_of_isInert (hresult t ht)
  simp only [expandAt, readCall_tokens hfile hline hd hparams, expandCall, expandDefinition, inside_eq,
    if_pos hdepth, if_neg (Nat.not_le.2 hbudget),
    substitute_of_inert hinner horigin call hparams hnames l harguments hcount, hresolved,
    hinner _ _ fun t ht => isPlain_of_isInert (hresult t ht)]

end

/-! ### Examples of invocations -/

/-- A sum of two parameters, the second of which has a default. -/
def sum : MacroDef where
  name := "SUM"
  params := some [⟨"a", none⟩, ⟨"b", some [⟨"7", .number, 16, 17⟩]⟩]
  body := [⟨"a", .identifier, 19, 20⟩, ⟨"+", .operator, 20, 21⟩, ⟨"b", .identifier, 21, 22⟩]
  origin := some "a.sv"
  span := (0, 22)
  nameSpan := (8, 11)

/-- One argument, with brackets and a comma inside and trivia around it. -/
def bracketedArgument : ArgumentList where
  gap := [⟨" ", .blank, 27, 28, "a.sv"⟩]
  opener := ⟨"(", .opening, 28, 29, "a.sv"⟩
  first := [⟨" ", .blank, 29, 30, "a.sv"⟩, ⟨"\x7b", .opening, 30, 31, "a.sv"⟩,
    ⟨"1", .number, 31, 32, "a.sv"⟩, ⟨",", .comma, 32, 33, "a.sv"⟩, ⟨"a", .identifier, 33, 34, "a.sv"⟩,
    ⟨"\x7d", .closing, 34, 35, "a.sv"⟩, ⟨" ", .blank, 35, 36, "a.sv"⟩]
  others := []
  closer := ⟨")", .closing, 36, 37, "a.sv"⟩
  gap_trivia := by decide
  opener_kind := rfl
  opener_text := rfl
  closer_kind := rfl
  first_balanced := by
    have hgroup : IsBalanced false (⟨"\x7b", .opening, 30, 31, "a.sv"⟩ ::
        ([⟨"1", .number, 31, 32, "a.sv"⟩, ⟨",", .comma, 32, 33, "a.sv"⟩,
          ⟨"a", .identifier, 33, 34, "a.sv"⟩] ++
        ⟨"\x7d", .closing, 34, 35, "a.sv"⟩ :: [⟨" ", .blank, 35, 36, "a.sv"⟩])) :=
      .group rfl rfl (.of_flat (by decide)) (.of_flat (by decide))
    exact .token (by decide) (by decide) (by decide) hgroup
  others_balanced := by simp

theorem expandAt_of_inert_sum :
    (expandAt ⟨⟨[sum]⟩, .empty, {}⟩ 127 ⟨"`SUM", .directive, 23, 27, "a.sv"⟩
        (bracketedArgument.tokens ++ [⟨";", .operator, 37, 38, "a.sv"⟩]) {}) =
      ([⟨"\x7b", .opening, 30, 31, "a.sv"⟩, ⟨"1", .number, 31, 32, "a.sv"⟩,
        ⟨",", .comma, 32, 33, "a.sv"⟩, ⟨"a", .identifier, 33, 34, "a.sv"⟩,
        ⟨"\x7d", .closing, 34, 35, "a.sv"⟩, ⟨"+", .operator, 20, 21, "a.sv"⟩,
        ⟨"7", .number, 16, 17, "a.sv"⟩], [⟨";", .operator, 37, 38, "a.sv"⟩], ⟨1, false, []⟩) := by
  rw [expandAt_of_inert bracketedArgument _ (by decide) (by decide) rfl rfl rfl (by decide) (by decide)
    (by decide) (.inl (by decide)) (by decide) (by decide)]
  decide

/-- A definition with the name of an invocation that is known without one. -/
def fileNamesake : MacroDef where
  name := "__FILE__"
  params := some [⟨"a", none⟩]
  body := [⟨"a", .identifier, 20, 21⟩]
  origin := some "a.sv"
  span := (0, 21)
  nameSpan := (8, 16)

/-- Such a name can be defined, but an invocation of it is not expanded to the body of the definition,
and takes no arguments. -/
theorem expandAt_namesake :
    (Preprocess.applyEffect ⟨Files.empty.provider, {}⟩ none [] "a.sv" "" {}
          { cache := .empty, macros := .empty }
          (Item.define ⟨"`define", .directive, 0, 7, "a.sv"⟩
            [⟨" ", .blank, 7, 8, "a.sv"⟩, ⟨"__FILE__", .identifier, 8, 16, "a.sv"⟩,
              ⟨"(", .opening, 16, 17, "a.sv"⟩, ⟨"a", .identifier, 17, 18, "a.sv"⟩,
              ⟨")", .closing, 18, 19, "a.sv"⟩, ⟨" ", .blank, 19, 20, "a.sv"⟩,
              ⟨"a", .identifier, 20, 21, "a.sv"⟩]).effect).2.macros = ⟨[fileNamesake]⟩ ∧
      (∀ t ∈ fileNamesake.tokens, t.kind.isInert) ∧
      (∀ a ∈ bracketedArgument.arguments, ∀ t ∈ a, t.kind.isInert) ∧
      expandAt ⟨⟨[fileNamesake]⟩, .empty, {}⟩ 0 ⟨"`__FILE__", .directive, 22, 31, "a.sv"⟩
          bracketedArgument.tokens {} =
        ([⟨"\"a.sv\"", .string, 22, 31, "a.sv"⟩], bracketedArgument.tokens, {}) ∧
      replacedBody fileNamesake "a.sv"
          (parameterValues "a.sv" [⟨"a", none⟩] bracketedArgument.arguments) ≠
        [⟨"\"a.sv\"", .string, 22, 31, "a.sv"⟩] :=
  ⟨by decide +kernel, by decide, by decide, rfl, by decide⟩

end Expansion

end HdlIndex
