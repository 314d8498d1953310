import HdlIndex.Proofs.Macro.Arguments
import HdlIndex.Proofs.Preprocess.Conditional

/-! Definitions as they are written: a name, parameters in parentheses behind it, each with or without a
default, and a body up to the end of the line. Main statement: what is read off such a line is the
definition that was written, with its parameters, defaults and body, and the line end is left over. -/

namespace HdlIndex

namespace MacroTable

/-- A definition is found under its own name; all other names keep theirs. -/
theorem get?_define (macros : MacroTable) (d : MacroDef) (name : String) :
    (macros.define d).get? name = if name = d.name then some d else macros.get? name := by
  unfold get? define undef
  rw [List.find?_append]
  by_cases hname : name = d.name
  · have hnone : (macros.entries.filter (·.name != d.name)).find? (·.name == name) = none := by
      rw [List.find?_eq_none]
      intro e he
      simpa [hname] using (List.mem_filter.1 he).2
    rw [hnone, Option.none_or, List.find?_singleton, if_pos hname, if_pos (by simp [hname])]
  · have hother : (macros.entries.filter (·.name != d.name)).find? (·.name == name) =
        macros.entries.find? (·.name == name) := by
      rw [List.find?_filter]
      congr 1
      funext e
      by_cases he : e.name = name
      · simp [he, hname]
      · simp [he]
    rw [hother, List.find?_singleton, if_neg (by simp [Ne.symm hname]), Option.or_none,
      if_neg hname]

end MacroTable

theorem trimBoth_eq_self {α : Type} {p : α → Bool} {items : List α}
    (hfirst : ∀ a ∈ items.head?, p a = false) (hlast : ∀ a ∈ items.getLast?, p a = false) :
    trimBoth p items = items := by
  have hdrop {l : List α} (h : ∀ a ∈ l.head?, p a = false) : l.dropWhile p = l := by
    cases l with
    | nil => rfl
    | cons a l => exact List.dropWhile_cons_of_neg (by simp [h a rfl])
  have hback : items.reverse.dropWhile p = items.reverse :=
    hdrop fun a ha => hlast a (by rwa [List.head?_reverse] at ha)
  rw [trimBoth, hback, List.reverse_reverse, hdrop hfirst]

theorem trimBoth_cons_of_pos {α : Type} {p : α → Bool} {a : α} (ha : p a) (items : List α) :
    trimBoth p (a :: items) = trimBoth p items := by
  rw [trimBoth, trimBoth, List.reverse_cons, List.dropWhile_append]
  split
  · next hempty =>
    rw [List.isEmpty_iff.1 hempty, List.dropWhile_cons_of_pos ha]
    rfl
  · rw [List.reverse_append, List.reverse_singleton, List.singleton_append,
      List.dropWhile_cons_of_pos ha]

/-- Tokens that are kept in a definition as they are: they stand on one line, none of them is a comment,
and there is no trivia at either end. -/
structure IsNeat (tokens : List Lexeme) : Prop where
  line : ∀ t ∈ tokens, t.endsLine = false
  uncommented : ∀ t ∈ tokens, t.kind ≠ .blockComment
  first : ∀ t ∈ tokens.head?, t.isTrivia = false
  last : ∀ t ∈ tokens.getLast?, t.isTrivia = false

namespace IsNeat

variable {tokens : List Lexeme}

theorem filter_eq (h : IsNeat tokens) : tokens.filter (·.kind != .blockComment) = tokens :=
  List.filter_eq_self.2 fun t ht => bne_iff_ne.2 (h.uncommented t ht)

theorem trimBoth_eq (h : IsNeat tokens) :
    trimBoth (·.kind.isTrivia) (tokens.map Lexeme.toBody) = tokens.map Lexeme.toBody := by
  refine trimBoth_eq_self (fun a ha => ?_) fun a ha => ?_
  · rw [List.head?_map] at ha
    obtain ⟨t, ht, rfl⟩ := Option.map_eq_some_iff.1 ha
    exact h.first t ht
  · rw [List.getLast?_map] at ha
    obtain ⟨t, ht, rfl⟩ := Option.map_eq_some_iff.1 ha
    exact h.last t ht

end IsNeat

/-! ### What is written -/

/-- A token that separates parameters or ends the list of them. -/
def Lexeme.EndsParameter (t : Lexeme) : Prop :=
  t.kind = .comma ∧ t.text = "," ∨ t.kind = .closing ∧ t.text = ")"

/-- A parameter as it is written, with an equals sign in front of the default. -/
structure WrittenParameter where
  name : Lexeme
  default : Option (Lexeme × List Lexeme)
  name_kind : name.kind = .identifier
  sign : ∀ d ∈ default, d.1.kind = .operator ∧ d.1.text = "="
  default_balanced : ∀ d ∈ default, IsBalanced false d.2
  default_neat : ∀ d ∈ default, IsNeat d.2

namespace WrittenParameter

def tokens (p : WrittenParameter) : List Lexeme :=
  p.name :: match p.default with
    | some (sign, tokens) => sign :: tokens
    | none => []

def parameter (p : WrittenParameter) : Parameter :=
  ⟨p.name.text, p.default.map fun d => d.2.map Lexeme.toBody⟩

end WrittenParameter

/-- A list of parameters in parentheses. -/
structure ParameterList where
  opener : Lexeme
  /-- The first parameter and the others, each of them with the comma in front of it. -/
  row : Option (WrittenParameter × List (Lexeme × WrittenParameter))
  closer : Lexeme
  opener_text : opener.text = "("
  row_commas : ∀ params ∈ row, ∀ other ∈ params.2, other.1.kind = .comma ∧ other.1.text = ","
  closer_kind : closer.kind = .closing
  closer_text : closer.text = ")"

namespace ParameterList

/-- The tokens between the parentheses. -/
def inner (l : ParameterList) : List Lexeme :=
  match l.row with
  | some (first, others) => first.tokens ++ others.flatMap fun other => other.1 :: other.2.tokens
  | none => []

def tokens (l : ParameterList) : List Lexeme := l.opener :: (l.inner ++ [l.closer])

def parameters (l : ParameterList) : List Parameter :=
  match l.row with
  | some (first, others) => first.parameter :: others.map (·.2.parameter)
  | none => []

end ParameterList

/-- A definition as it is written on a line of its own. -/
structure DefinitionLine where
  directive : Lexeme
  blank : Lexeme
  name : Lexeme
  params : Option ParameterList
  /-- The blank in front of the body. -/
  gap : Lexeme
  body : List Lexeme
  newline : Lexeme
  directive_kind : directive.kind = .directive
  directive_text : directive.text = "`define"
  blank_kind : blank.kind = .blank
  name_kind : name.kind = .identifier
  gap_kind : gap.kind = .blank
  gap_text : gap.text ≠ "("
  body_neat : IsNeat body
  newline_kind : newline.kind = .newline

namespace DefinitionLine

/-- The name and the parameters. -/
def head (l : DefinitionLine) : List Lexeme := l.name :: (l.params.map (·.tokens)).getD []

/-- The tokens behind the directive, without the line end. -/
def operands (l : DefinitionLine) : List Lexeme := l.blank :: (l.head ++ l.gap :: l.body)

def tokens (l : DefinitionLine) : List Lexeme := l.directive :: l.operands

/-- Where the name and the parameters stop. -/
def headStop (l : DefinitionLine) : Nat := (l.params.map (·.closer.stop)).getD l.name.stop

/-- Where the definition stops: with the last token of the body, if that lies behind the head. -/
def stop (l : DefinitionLine) : Nat :=
  (l.body.getLast?.map fun t => max l.headStop t.stop).getD l.headStop

/-- The definition that is written. -/
def definition (l : DefinitionLine) : MacroDef where
  name := l.name.text
  params := l.params.map (·.parameters)
  body := l.body.map Lexeme.toBody
  origin := some l.directive.file
  span := (l.directive.start, l.stop)
  nameSpan := (l.name.start, l.name.stop)

end DefinitionLine

namespace Item

/-! ### Defaults -/

section

variable {t : Lexeme} (depth : Nat) (rest : List Lexeme)

/-- A token that is kept, with the brackets that are open behind it. -/
theorem defaultTokens_of_kept (hline : t.endsLine = false) {next : Nat}
    (hkept : t.kind = .opening ∧ next = depth + 1 ∨ t.kind = .closing ∧ depth = next + 1 ∨
      t.kind ≠ .opening ∧ t.kind ≠ .closing ∧ next = depth ∧ (t.kind = .comma → 0 < depth)) :
    defaultTokens depth (t :: rest) =
      (t :: (defaultTokens next rest).1, (defaultTokens next rest).2) := by
  simp only [defaultTokens, hline, Bool.false_eq_true, if_false]
  rcases hkept with ⟨hkind, rfl⟩ | ⟨hkind, rfl⟩ | ⟨hopening, hclosing, rfl, hcomma⟩
  · simp only [hkind]
  · simp only [hkind]
  · split
    · next hkind => exact absurd (hcomma hkind) (Nat.lt_irrefl 0)
    · next hkind => exact absurd hkind hclosing
    · next hkind => exact absurd hkind hopening
    · next hkind => exact absurd hkind hclosing
    · rfl

theorem defaultTokens_of_endsParameter (ht : t.EndsParameter) :
    defaultTokens 0 (t :: rest) = ([], t :: rest) := by
  rcases ht with ⟨hkind, -⟩ | ⟨hkind, -⟩ <;> simp [defaultTokens, hkind]

end

/-- Balanced tokens of one line are kept. -/
theorem defaultTokens_append {commas : Bool} {tokens : List Lexeme} (h : IsBalanced commas tokens)
    (hline : ∀ t ∈ tokens, t.endsLine = false) {depth : Nat} (hdepth : commas = true → 0 < depth)
    (rest : List Lexeme) :
    defaultTokens depth (tokens ++ rest) =
      (tokens ++ (defaultTokens depth rest).1, (defaultTokens depth rest).2) := by
  induction h generalizing depth rest with
  | nil => rfl
  | token hopening hclosing hcomma _ ih =>
    obtain ⟨ht, hline⟩ := List.forall_mem_cons.1 hline
    rw [List.cons_append, defaultTokens_of_kept depth _ ht
      (.inr (.inr ⟨hopening, hclosing, rfl, fun hkind => hdepth (hcomma hkind)⟩)), ih hline hdepth]
    rfl
  | group hopener hcloser _ _ ihinner ihrest =>
    obtain ⟨hstart, hline⟩ := List.forall_mem_cons.1 hline
    obtain ⟨hinner, hline⟩ := List.forall_mem_append.1 hline
    obtain ⟨hend, hline⟩ := List.forall_mem_cons.1 hline
    rw [List.cons_append, List.append_assoc, List.cons_append,
      defaultTokens_of_kept depth _ hstart (.inl ⟨hopener, rfl⟩),
      ihinner hinner fun _ => Nat.succ_pos depth,
      defaultTokens_of_kept (depth + 1) _ hend (.inr (.inl ⟨hcloser, rfl⟩)), ihrest hline hdepth]
    simp

theorem parameterDefault_eq {sign : Lexeme} (hsign : sign.text = "=") {tokens : List Lexeme}
    (h : IsNeat tokens) : parameterDefault sign tokens = tokens.map Lexeme.toBody := by
  have hlength : ¬1 < sign.text.length := by rw [hsign]; decide
  rw [parameterDefault, if_neg hlength, List.nil_append, h.filter_eq, h.trimBoth_eq]

/-! ### Parameters -/

theorem skipInline_of_not_inline {t : Lexeme} (h : t.isInline = false) (rest : List Lexeme) :
    skipInline (t :: rest) = t :: rest := by
  rw [skipInline, List.dropWhile_cons_of_neg (by simp [h])]

theorem parameters_of_comma {t : Lexeme} (h : t.kind = .comma) (rest : List Lexeme) :
    parameters (t :: rest) = parameters rest := by
  rw [parameters, h]

theorem parameters_of_closing {t : Lexeme} (h : t.kind = .closing) (rest : List Lexeme) :
    parameters (t :: rest) = ([], [], rest) := by
  rw [parameters, h]

/-- A name is a parameter, with a default if an equals sign stands behind it. -/
theorem parameters_of_identifier {name sign : Lexeme} (hname : name.kind = .identifier)
    (hinline : sign.isInline = false) (rest : List Lexeme) :
    parameters (name :: sign :: rest) =
      if sign.text.toList.head? = some '=' then
        (⟨name.text, some (parameterDefault sign (defaultTokens 0 rest).1)⟩ ::
          (parameters (defaultTokens 0 rest).2).1, (parameters (defaultTokens 0 rest).2).2)
      else (⟨name.text, none⟩ :: (parameters (sign :: rest)).1, (parameters (sign :: rest)).2) := by
  rw [parameters]
  simp only [hname]
  split
  · next heq =>
    rw [skipInline_of_not_inline hinline] at heq
    cases heq
    rfl
  · next heq =>
    rw [skipInline_of_not_inline hinline] at heq
    cases heq

/-- A parameter is read as it is written. -/
theorem parameters_tokens (p : WrittenParameter) {t : Lexeme} (ht : t.EndsParameter)
    (rest : List Lexeme) :
    parameters (p.tokens ++ t :: rest) =
      (p.parameter :: (parameters (t :: rest)).1, (parameters (t :: rest)).2) := by
  obtain ⟨name, default, hname, hsign, hbalanced, hneat⟩ := p
  cases default with
  | none =>
    have hinline : t.isInline = false := by
      rcases ht with ⟨hkind, -⟩ | ⟨hkind, -⟩ <;> simp [Lexeme.isInline, hkind]
    have hplain : t.text.toList.head? ≠ some '=' := by
      rcases ht with ⟨-, htext⟩ | ⟨-, htext⟩ <;> simp [htext]
    exact (parameters_of_identifier hname hinline rest).trans (if_neg hplain)
  | some d =>
    obtain ⟨sign, tokens⟩ := d
    obtain ⟨hkind, htext⟩ : sign.kind = .operator ∧ sign.text = "=" := hsign _ rfl
    have hinline : sign.isInline = false := by simp [Lexeme.isInline, hkind]
    have hdefault : defaultTokens 0 (tokens ++ t :: rest) = (tokens, t :: rest) := by
      rw [defaultTokens_append (hbalanced _ rfl) (hneat _ rfl).line (by simp),
        defaultTokens_of_endsParameter rest ht, List.append_nil]
    refine (parameters_of_identifier hname hinline (tokens ++ t :: rest)).trans ?_
    rw [if_pos (by simp [htext]), hdefault, parameterDefault_eq htext (hneat _ rfl)]
    rfl

/-- Parameters with commas between them are read up to the closing parenthesis. -/
theorem parameters_row (first : WrittenParameter) {others : List (Lexeme × WrittenParameter)}
    (hcommas : ∀ other ∈ others, other.1.kind = .comma ∧ other.1.text = ",") {closer : Lexeme}
    (hkind : closer.kind = .closing) (htext : closer.text = ")") (rest : List Lexeme) :
    parameters
        (first.tokens ++ (others.flatMap (fun other => other.1 :: other.2.tokens) ++ closer :: rest)) =
      (first.parameter :: others.map (·.2.parameter), [], rest) := by
  induction others generalizing first with
  | nil =>
    rw [List.flatMap_nil, List.nil_append, parameters_tokens first (.inr ⟨hkind, htext⟩),
      parameters_of_closing hkind]
    rfl
  | cons other others ih =>
    obtain ⟨hcomma, hcommas⟩ := List.forall_mem_cons.1 hcommas
    rw [List.flatMap_cons, List.cons_append, List.cons_append, List.append_assoc,
      parameters_tokens first (.inl hcomma), parameters_of_comma hcomma.1, ih other.2 hcommas,
      List.map_cons]

theorem parameters_inner (l : ParameterList) (rest : List Lexeme) :
    parameters (l.inner ++ l.closer :: rest) = (l.parameters, [], rest) := by
  obtain ⟨opener, row, closer, -, hcommas, hkind, htext⟩ := l
  cases row with
  | none => exact parameters_of_closing hkind rest
  | some row =>
    simp only [ParameterList.inner, ParameterList.parameters, List.append_assoc]
    exact parameters_row row.1 (hcommas row rfl) hkind htext rest

/-! ### Definitions -/

/-- The end of tokens in front of others. -/
theorem endBetween_append (front behind : List Lexeme) :
    endBetween (front ++ behind) behind = (front.getLast?.map (·.stop)).getD 0 := by
  rw [endBetween, List.length_append, Nat.add_sub_cancel, List.take_left]

end Item

namespace DefinitionLine

open Item

theorem getLast?_head (l : DefinitionLine) : l.head.getLast?.map (·.stop) = some l.headStop := by
  cases hparams : l.params with
  | none => simp [head, headStop, hparams]
  | some params => simp [head, headStop, hparams, ParameterList.tokens, List.getLast?_cons]

/-- No token in front of the line end ends the line. -/
theorem goesOn (l : DefinitionLine) : ∀ t ∈ l.gap :: l.body, (!t.endsLine) = true := by
  refine List.forall_mem_cons.2 ⟨?_, fun t ht => ?_⟩
  · simp [Lexeme.endsLine, l.gap_kind]
  · rw [l.body_neat.line t ht, Bool.not_false]

theorem endsLine_newline (l : DefinitionLine) : l.newline.endsLine = true := by
  simp [Lexeme.endsLine, l.newline_kind]

/-- The body is what is written up to the line end, without the blank in front. -/
theorem body_eq (l : DefinitionLine) (rest : List Lexeme) :
    trimBoth (·.kind.isTrivia) ((((l.gap :: (l.body ++ l.newline :: rest)).takeWhile
      fun t => !t.endsLine).filter (·.kind != .blockComment)).map Lexeme.toBody) =
        l.body.map Lexeme.toBody := by
  have hkept : (l.gap :: l.body).filter (·.kind != .blockComment) = l.gap :: l.body := by
    refine List.filter_eq_self.2 (List.forall_mem_cons.2 ⟨by simp [l.gap_kind], fun t ht => ?_⟩)
    exact bne_iff_ne.2 (l.body_neat.uncommented t ht)
  have hblank : l.gap.toBody.kind.isTrivia := by
    rw [Lexeme.toBody, l.gap_kind, LexKind.isTrivia]
  rw [← List.cons_append, List.takeWhile_append_of_pos l.goesOn,
    List.takeWhile_cons_of_neg (by simp [l.endsLine_newline]), List.append_nil,
    hkept, List.map_cons, trimBoth_cons_of_pos (p := fun t : BodyToken => t.kind.isTrivia) hblank,
    l.body_neat.trimBoth_eq]

theorem skipLine_eq (l : DefinitionLine) (rest : List Lexeme) :
    skipLine (l.gap :: (l.body ++ l.newline :: rest)) = l.newline :: rest := by
  rw [skipLine, ← List.cons_append, List.dropWhile_append_of_pos l.goesOn,
    List.dropWhile_cons_of_neg (by simp [l.endsLine_newline])]

/-- The name is what is written behind the directive. -/
theorem skipInline_operands (l : DefinitionLine) (rest : List Lexeme) :
    skipInline (l.operands ++ rest) = l.head ++ l.gap :: (l.body ++ rest) := by
  have hblank : l.blank.isInline = true := by simp [Lexeme.isInline, l.blank_kind]
  have hname : l.name.isInline = false := by simp [Lexeme.isInline, l.name_kind]
  rw [operands, List.cons_append, List.append_assoc, List.cons_append, skipInline,
    List.dropWhile_cons_of_pos hblank, head, List.cons_append]
  exact skipInline_of_not_inline hname _

/-- What is read off a definition is the definition as it was written, up to the line end. -/
theorem define_operands (l : DefinitionLine) (rest : List Lexeme) :
    define l.directive (l.operands ++ l.newline :: rest) =
      ⟨[], .define l.definition, l.newline :: rest⟩ := by
  have hstop : endBetween (l.head ++ l.gap :: (l.body ++ l.newline :: rest))
      (l.gap :: (l.body ++ l.newline :: rest)) = l.headStop := by
    rw [endBetween_append, l.getLast?_head, Option.getD_some]
  have hbody := l.body_eq rest
  have hlast : ((l.body.map Lexeme.toBody).getLast?.map (max l.headStop ·.stop)).getD l.headStop =
      l.stop := by
    rw [List.getLast?_map, Option.map_map]
    rfl
  rw [define, skipInline_operands]
  cases hparams : l.params with
  | none =>
    have hhead : l.head = [l.name] := by rw [head, hparams]; rfl
    simp only [hhead, List.cons_append, List.nil_append] at hstop ⊢
    simp only [l.name_kind, ne_eq, not_true_eq_false, if_false, if_neg l.gap_text, hstop, hbody,
      hlast, skipLine_eq, definition, hparams, Option.map_none]
  | some params =>
    have hhead : l.head = l.name :: params.opener :: (params.inner ++ [params.closer]) := by
      rw [head, hparams]; rfl
    simp only [hhead, List.cons_append, List.append_assoc, List.nil_append] at hstop ⊢
    simp only [l.name_kind, ne_eq, not_true_eq_false, if_false, if_pos params.opener_text,
      parameters_inner, hstop, hbody, hlast, skipLine_eq, definition, hparams, Option.map_some]

theorem read_definition (l : DefinitionLine) (expansion : Expansion.Env) (conditions : List Bool)
    (rest : List Lexeme) :
    Item.read expansion conditions l.directive (l.operands ++ l.newline :: rest) =
      ⟨[], .define l.definition, l.newline :: rest⟩ := by
  have hname : FileDirective.ofName l.directive.name = .define := by
    rw [Lexeme.name, l.directive_text]
    decide
  rw [Item.read, l.directive_kind]
  simp only [Item.directive, hname]
  exact l.define_operands rest

/-- The symbol of a definition. -/
def symbol (l : DefinitionLine) (text : String) : Symbol where
  name := l.name.text
  kind := .textMacro (String.join (l.body.map (·.text)))
  definition := .single (Text.range text l.directive.start l.stop)
  declaration := some ⟨none, Text.range text l.name.start l.name.stop⟩

theorem definitionSymbol_definition (l : DefinitionLine) (text : String) :
    Preprocess.definitionSymbol text l.definition = l.symbol text := by
  simp [Preprocess.definitionSymbol, symbol, definition, MacroDef.replacement, Lexeme.toBody,
    Function.comp_def]

end DefinitionLine

namespace Preprocess

/-- A definition is read as it was written: the scan does nothing but make it and goes on in front of
the line end. The definition in force has the name, the parameters, the defaults and the body that
were written, one symbol with the text of the body stands for it, and the log adds it, after a
deletion if the name had a definition. -/
theorem scan_definition (l : DefinitionLine) (env : Env) (nested : Option Process)
    (chain : List Path) (file text : String) (st : FileState) (run : RunState)
    (rest : List Lexeme) :
    (scan env nested chain file text st run (l.tokens ++ l.newline :: rest) =
      scan env nested chain file text
        { st with
          symbols := Symbol.upsert st.symbols (l.symbol text)
          log := st.log ++
            (if (run.macros.get? l.name.text).isSome then [.delete l.name.text] else []) ++
              [.add l.definition] }
        { run with macros := run.macros.define l.definition } (l.newline :: rest)) ∧
      ∀ name, (run.macros.define l.definition).get? name =
        if name = l.name.text then some l.definition else run.macros.get? name := by
  refine ⟨?_, fun name => MacroTable.get?_define run.macros l.definition name⟩
  rw [← l.definitionSymbol_definition]
  exact scan_item env nested chain file text (l.read_definition _ _ _)

/-- A definition with a plain parameter and one with a default. -/
def defaulted : DefinitionLine where
  directive := ⟨"`define", .directive, 0, 7, "m.v"⟩
  blank := ⟨" ", .blank, 7, 8, "m.v"⟩
  name := ⟨"M", .identifier, 8, 9, "m.v"⟩
  params := some {
    opener := ⟨"(", .opening, 9, 10, "m.v"⟩
    row := some (
      { name := ⟨"x", .identifier, 10, 11, "m.v"⟩
        default := none
        name_kind := rfl
        sign := by simp
        default_balanced := by simp
        default_neat := by simp },
      [(⟨",", .comma, 11, 12, "m.v"⟩,
        { name := ⟨"y", .identifier, 12, 13, "m.v"⟩
          default := some (⟨"=", .operator, 13, 14, "m.v"⟩, [⟨"a", .identifier, 14, 15, "m.v"⟩])
          name_kind := rfl
          sign := by simp
          default_balanced := by rintro _ ⟨⟩; exact .of_flat (by decide)
          default_neat := by rintro _ ⟨⟩; exact ⟨by decide, by decide, by decide, by decide⟩ })])
    closer := ⟨")", .closing, 15, 16, "m.v"⟩
    opener_text := rfl
    row_commas := by simp
    closer_kind := rfl
    closer_text := rfl }
  gap := ⟨" ", .blank, 16, 17, "m.v"⟩
  body := [⟨"x", .identifier, 17, 18, "m.v"⟩, ⟨"+", .operator, 18, 19, "m.v"⟩,
    ⟨"y", .identifier, 19, 20, "m.v"⟩]
  newline := ⟨"\n", .newline, 20, 21, "m.v"⟩
  directive_kind := rfl
  directive_text := rfl
  blank_kind := rfl
  name_kind := rfl
  gap_kind := rfl
  gap_text := by decide
  body_neat := ⟨by decide, by decide, by decide, by decide⟩
  newline_kind := rfl

/-- The line is one that the lexer makes, and its name has another definition before. -/
theorem scan_definition_defaulted :
    let d : MacroDef := {
      name := "M"
      params := some [⟨"x", none⟩, ⟨"y", some [⟨"a", .identifier, 14, 15⟩]⟩]
      body := [⟨"x", .identifier, 17, 18⟩, ⟨"+", .operator, 18, 19⟩, ⟨"y", .identifier, 19, 20⟩]
      origin := some "m.v"
      span := (0, 20)
      nameSpan := (8, 9) }
    let text := "`define M(x,y=a) x+y\n"
    let env : Env := ⟨Files.empty.provider, {}⟩
    let run : RunState := { cache := .empty, macros := ⟨[.user "M" []]⟩ }
    Lexeme.lex "m.v" text = defaulted.tokens ++ [defaulted.newline] ∧ defaulted.definition = d ∧
      scan env none [] "m.v" text {} run (defaulted.tokens ++ [defaulted.newline]) =
        scan env none [] "m.v" text
          { symbols := [defaulted.symbol text], log := [.delete "M", .add d] }
          { run with macros := run.macros.define d } [defaulted.newline] ∧
      (run.macros.define d).get? "M" = some d :=
  have h := scan_definition defaulted ⟨Files.empty.provider, {}⟩ none [] "m.v"
    "`define M(x,y=a) x+y\n" {} { cache := .empty, macros := ⟨[.user "M" []]⟩ } []
  ⟨by decide +kernel, rfl, h.1, h.2 "M"⟩

end Preprocess

end HdlIndex
