import HdlIndex.Options

/-! The command line: options that hold for all commands, a command, its options and its operands.
Words are taken from left to right. An option that takes a value, and operands, are settled when
the next option or the end is reached; that is when a missing or malformed value is noticed. -/

namespace HdlIndex.Command

/-! ### What can be asked for -/

inductive CommandName where
  | tokens
  | preprocess
  | symbols
  | index
  | completion
  deriving DecidableEq, Repr, Inhabited

def CommandName.ofWord? : String → Option CommandName
  | "tokens" => some .tokens
  | "preprocess" => some .preprocess
  | "symbols" => some .symbols
  | "index" => some .index
  | "completion" => some .completion
  | _ => none

inductive Shell where
  | bash
  | elvish
  | fish
  | powershell
  | zsh
  deriving DecidableEq, Repr, Inhabited

/-- The shell with a name, in capital or small letters. -/
def Shell.ofWord? (word : String) : Option Shell :=
  match word.map Char.toLower with
  | "bash" => some .bash
  | "elvish" => some .elvish
  | "fish" => some .fish
  | "powershell" => some .powershell
  | "zsh" => some .zsh
  | _ => none

/-- Options without a value. -/
inductive Switch where
  | verbose
  | help
  | version
  | json
  /-- Tokens of the directive grammar. -/
  | directives
  | parallel
  deriving DecidableEq, Repr, Inhabited

/-- Options with a value. -/
inductive Setting where
  | includePath
  | define
  | output
  deriving DecidableEq, Repr, Inhabited

/-- Where an option stands: in front of the command, or behind it. -/
abbrev Level := Option CommandName

def Switch.ofWord? (level : Level) : String → Option Switch
  | "verbose" => some .verbose
  | "help" => some .help
  | "version" => if level = none then some .version else none
  | "json" => if level = some .symbols then some .json else none
  | "preproc" => if level = some .tokens then some .directives else none
  | "parallel" => if level = some .index then some .parallel else none
  | _ => none

def Switch.ofLetter? (level : Level) : Char → Option Switch
  | 'v' => some .verbose
  | 'h' => some .help
  | 'V' => if level = none then some .version else none
  | 'p' => if level = some .index then some .parallel else none
  | _ => none

def Setting.ofWord? (level : Level) : String → Option Setting
  | "include" => some .includePath
  | "define" => some .define
  | "output" => if level = some .index then some .output else none
  | _ => none

def Setting.ofLetter? (level : Level) : Char → Option Setting
  | 'I' => some .includePath
  | 'D' => some .define
  | 'o' => if level = some .index then some .output else none
  | _ => none

/-- Why no command is run. -/
inductive UsageStop where
  | helpAsked
  | versionAsked
  /-- There are no arguments at all. -/
  | nothingAsked
  | missingCommand
  | unknownCommand
  | unknownArgument
  | missingOperand
  /-- A value is missing or malformed. -/
  | badValue
  /-- An option that may stand once stands twice. -/
  | repeated
  /-- An option without a value is given one. -/
  | unwantedValue
  deriving DecidableEq, Repr, Inhabited

/-- Asking for help or the version is no error. -/
def UsageStop.exitCode : UsageStop → Nat
  | helpAsked | versionAsked => 0
  | _ => 2

/-! ### What has been read -/

structure Given where
  includes : List String := []
  defines : List String := []
  output : Option String := none
  switches : List Switch := []
  operands : List String := []
  deriving DecidableEq, Repr, Inhabited

/-- Words that have been read and not settled. -/
inductive Unsettled where
  | setting (s : Setting) (value : Option String)
  | operands (words : List String)
  deriving DecidableEq, Repr

structure Scan where
  given : Given := {}
  pending : Option Unsettled := none
  /-- Whether options have been ended by `--`. -/
  ended : Bool := false
  deriving DecidableEq, Repr, Inhabited

namespace Scan

/-- Whether the next word is a value unless it looks like an option. -/
def awaitsValue (s : Scan) : Bool :=
  match s.pending with
  | some (.setting _ none) => true
  | _ => false

def store (given : Given) : Setting → String → Except UsageStop Given
  | .includePath, value =>
    if value.isEmpty then .error .badValue
    else .ok { given with includes := given.includes ++ [value] }
  | .define, value => .ok { given with defines := given.defines ++ [value] }
  | .output, value =>
    if given.output.isSome then .error .repeated
    else if value.isEmpty then .error .badValue
    else .ok { given with output := some value }

/-- Whether a word can be an operand: the name of a shell, or a path, which is not empty. -/
def acceptsOperand (level : Level) (word : String) : Bool :=
  if level = some .completion then (Shell.ofWord? word).isSome else !word.isEmpty

/-- Settles what is pending. -/
def settle (level : Level) (s : Scan) : Except UsageStop Scan :=
  match s.pending with
  | none => .ok s
  | some (.setting _ none) => .error .badValue
  | some (.setting setting (some value)) => do
    let given ← store s.given setting value
    return { s with given, pending := none }
  | some (.operands words) =>
    if words.all (acceptsOperand level) then
      .ok { s with
        given := { s.given with operands := s.given.operands ++ words }
        pending := none }
    else .error .badValue

def giveSwitch (level : Level) (switch : Switch) (s : Scan) : Except UsageStop Scan := do
  let s ← s.settle level
  match switch with
  | .help => .error .helpAsked
  | .version => .error .versionAsked
  | switch =>
    if s.given.switches.contains switch then .error .repeated
    else .ok { s with given := { s.given with switches := s.given.switches ++ [switch] } }

/-- An option whose value is to come. -/
def await (level : Level) (setting : Setting) (s : Scan) : Except UsageStop Scan := do
  let s ← s.settle level
  return { s with pending := some (.setting setting none) }

/-- An option with its value in the same word. -/
def giveValue (level : Level) (setting : Setting) (value : String) (s : Scan) :
    Except UsageStop Scan := do
  let s ← s.settle level
  { s with pending := some (.setting setting (some value)) }.settle level

/-- A word behind `--` of an option, which may hold a value behind `=`. -/
def long (level : Level) (word : List Char) (s : Scan) : Except UsageStop Scan :=
  let name := String.ofList (word.takeWhile (· != '='))
  let value :=
    match word.dropWhile (· != '=') with
    | [] => none
    | _ :: value => some (String.ofList value)
  match Switch.ofWord? level name, Setting.ofWord? level name, value with
  | some switch, _, none => s.giveSwitch level switch
  | some _, _, some _ => .error .unwantedValue
  | none, some setting, none => s.await level setting
  | none, some setting, some value => s.giveValue level setting value
  | none, none, _ => .error .unknownArgument

/-- Letters behind `-`. One that takes a value takes the rest of the word, or the next word. -/
def short (level : Level) : List Char → Scan → Except UsageStop Scan
  | [], s => .ok s
  | letter :: rest, s =>
    match Switch.ofLetter? level letter, Setting.ofLetter? level letter with
    | some switch, _ => do short level rest (← s.giveSwitch level switch)
    | none, some setting =>
      match rest with
      | [] => s.await level setting
      | '=' :: value => s.giveValue level setting (.ofList value)
      | value => s.giveValue level setting (.ofList value)
    | none, none => .error .unknownArgument

/-- Whether another operand can follow. In front of the command there is none; `index` takes any
number. -/
def hasRoom (level : Level) (s : Scan) : Bool :=
  match level with
  | none => false
  | some .index => true
  | some _ =>
    match s.pending with
    | some (.operands _) => false
    | _ => s.given.operands.isEmpty

/-- Whether the word names a command. -/
def isCommandWord (word : String) : Bool := word == "help" || (CommandName.ofWord? word).isSome

def operand (level : Level) (word : String) (s : Scan) : Except UsageStop Scan :=
  if s.hasRoom level then
    match s.pending with
    | some (.operands words) => .ok { s with pending := some (.operands (words ++ [word])) }
    | _ => do
      let s ← s.settle level
      return { s with pending := some (.operands [word]) }
  else if level = none && !(s.ended && isCommandWord word) then .error .unknownCommand
  else .error .unknownArgument

/-- Reads one word that is no command. -/
def word (level : Level) (word : String) (s : Scan) : Except UsageStop Scan :=
  if s.ended then s.operand level word
  else
    match word.toList with
    | ['-', '-'] => .ok { s with ended := true }
    | '-' :: '-' :: name => s.long level name
    | '-' :: letter :: letters => s.short level (letter :: letters)
    | _ =>
      match s.pending with
      | some (.setting setting none) =>
        .ok { s with pending := some (.setting setting (some word)) }
      | _ => s.operand level word

/-- Reads words up to the first that names a command, if a command can stand here. The second
result is that word with the words behind it. -/
def words (level : Level) : List String → Scan → Except UsageStop (Scan × List String)
  | [], s => .ok (s, [])
  | w :: rest, s =>
    if level = none && !s.ended && !s.awaitsValue && isCommandWord w then .ok (s, w :: rest)
    else do words level rest (← s.word level w)

end Scan

/-! ### Commands with their arguments -/

inductive Action where
  | tokens (file : Path) (directives : Bool)
  | preprocess (file : Path)
  | symbols (file : Path) (json : Bool)
  | index (files : List Path) (parallel : Bool) (output : Option Path)
  | completion (shell : Shell)
  deriving DecidableEq, Repr

structure Invocation where
  includes : List String
  defines : List String
  action : Action
  deriving DecidableEq, Repr

/-- The help for a command, if the words name one. -/
def helpFor : List String → UsageStop
  | [] => .helpAsked
  | [word] => if Scan.isCommandWord word then .helpAsked else .unknownCommand
  | _ => .unknownCommand

def Given.action (given : Given) : CommandName → Except UsageStop Action
  | name =>
    match given.operands with
    | [] => .error .missingOperand
    | first :: rest =>
      match name with
      | .tokens => .ok (.tokens ⟨first⟩ (given.switches.contains .directives))
      | .preprocess => .ok (.preprocess ⟨first⟩)
      | .symbols => .ok (.symbols ⟨first⟩ (given.switches.contains .json))
      | .index =>
        .ok (.index ((first :: rest).map (⟨·⟩)) (given.switches.contains .parallel)
          (given.output.map (⟨·⟩)))
      | .completion =>
        match Shell.ofWord? first with
        | some shell => .ok (.completion shell)
        | none => .error .badValue

/-- Reads a command line. What stands behind the command is settled first. Options in front of the
command hold unless they stand behind it too. -/
def Invocation.parse (args : List String) : Except UsageStop Invocation := do
  let (outer, rest) ← Scan.words none args {}
  match rest with
  | [] =>
    let outer ← outer.settle none
    .error (if outer.given = {} then .nothingAsked else .missingCommand)
  | word :: rest =>
    match CommandName.ofWord? word with
    | none => .error (helpFor rest)
    | some name =>
      let (inner, _) ← Scan.words (some name) rest {}
      let inner ← inner.settle (some name)
      let action ← inner.given.action name
      let outer ← outer.settle none
      let orElse (inner outer : List String) : List String := if inner.isEmpty then outer else inner
      return {
        includes := orElse inner.given.includes outer.given.includes
        defines := orElse inner.given.defines outer.given.defines
        action }

/-- The settings of all documents. -/
def Invocation.options (i : Invocation) : Except String Options :=
  match i.defines.find? fun spec => (UserDefine.parse? spec).isNone with
  | some spec => .error spec
  | none =>
    .ok { includePaths := i.includes.map (⟨·⟩), defines := i.defines.filterMap UserDefine.parse? }

end HdlIndex.Command
