import HdlIndex.Proofs.Path
import HdlIndex.Proofs.Preprocess.Remainder

/-! The course of a run: the includes that it carries out, in order, each with what was found and
the states around it. Files are processed inside one another, so a statement about all includes of a
run goes through the same steps every time; `Invariant` says what has to be shown of each step, and
`Invariant.process` concludes for whole files. -/

namespace HdlIndex

namespace IncludeCache

@[simp]
theorem get?_empty (path : Path) : empty.get? path = none := rfl

@[simp]
theorem resolved?_insert (c : IncludeCache) (path : Path) (file : IncludedFile) (spec : String) :
    (c.insert path file).resolved? spec = c.resolved? spec := rfl

theorem resolved?_remember (c : IncludeCache) (spec : String) (path : Path) (s : String) :
    (c.remember spec path).resolved? s = if s = spec then some path else c.resolved? s := by
  have hfilter : ∀ entries : List (String × Path), s ≠ spec →
      (entries.filter (·.1 != spec)).lookup s = entries.lookup s := by
    intro entries hs
    induction entries with
    | nil => rfl
    | cons e entries ih =>
      by_cases he : e.1 = spec
      · have hse : (s == e.1) = false := beq_eq_false_iff_ne.2 (he ▸ hs)
        rw [List.filter_cons_of_neg (by simpa using he), ih, List.lookup_cons, hse]
      · rw [List.filter_cons_of_pos (by simpa using he), List.lookup_cons, List.lookup_cons, ih]
  unfold resolved? remember
  by_cases hs : s = spec
  · rw [if_pos hs, List.lookup_cons, beq_iff_eq.2 hs]
  · rw [if_neg hs, List.lookup_cons, beq_eq_false_iff_ne.2 hs, hfilter _ hs]

theorem mem_of_get? {c : IncludeCache} {path : Path} {file : IncludedFile}
    (h : c.get? path = some file) : ∃ p, (p, file) ∈ c.entries := by
  obtain ⟨e, he, rfl⟩ := Option.map_eq_some_iff.1 h
  exact ⟨e.1, List.mem_of_find?_eq_some he⟩

/-- A file is found under every spelling of its path. -/
theorem get?_of_same (c : IncludeCache) {p q : Path} (h : p.same q) : c.get? p = c.get? q := by
  have heq : (fun e : Path × IncludedFile => e.1.same p) = fun e => e.1.same q := by
    funext e
    rw [Bool.eq_iff_iff]
    exact ⟨fun he => Path.same_trans he h, fun he => Path.same_trans he (Path.same_symm h)⟩
  unfold get?
  rw [heq]

theorem get?_insert (c : IncludeCache) (path : Path) (file : IncludedFile) (p : Path) :
    (c.insert path file).get? p = if path.same p then some file else c.get? p := by
  unfold get? insert
  rw [List.find?_append, List.find?_filter]
  by_cases hp : path.same p
  · have hnone : (c.entries.find? fun e => !e.1.same path && e.1.same p) = none := by
      refine List.find?_eq_none.2 fun e _ he => ?_
      rw [Bool.and_eq_true, Bool.not_eq_true'] at he
      exact absurd (Path.same_trans he.2 (Path.same_symm hp)) (by simp [he.1])
    simp [hnone, hp]
  · have hsome : (fun e : Path × IncludedFile => !e.1.same path && e.1.same p) =
        fun e => e.1.same p := by
      funext e
      by_cases he : e.1.same p
      · have hpath : ¬e.1.same path := fun h => hp (Path.same_trans (Path.same_symm h) he)
        simp [he, hpath]
      · simp [he]
    simp [hsome, hp]

end IncludeCache

theorem Effect.inclusion_or_plain (e : Effect) :
    (∃ spec offset, e = .inclusion spec offset) ∨ ∀ spec offset, e ≠ .inclusion spec offset := by
  cases e <;> simp

namespace Preprocess

/-! ### Includes that are carried out -/

/-- An include that a run carries out. -/
structure Inclusion where
  /-- The file that holds the directive. -/
  including : String
  spec : String
  /-- The files that are being processed, the including one first. -/
  chain : List Path
  /-- The file that it names; none if it was not looked for, or not found. -/
  located : Option Path
  result : Except Problem (Path × IncludedFile)
  before : RunState
  after : RunState

/-- The file that an include opens. -/
def Inclusion.opened (i : Inclusion) : Option Path :=
  match i.result with
  | .ok (path, _) => some path
  | .error _ => none

/-- The includes that are carried out while a file is processed. -/
abbrev Course := List Path → String → String → RunState → List Inclusion

/-- The file that an include names. At the limit of the nesting none is looked for. -/
def lookUp (env : Env) (nested : Option Process) (spec including : String) (run : RunState) :
    Option Path × RunState :=
  match nested with
  | none => (none, run)
  | some _ => locate env spec including run

/-- The text of a file that has to be processed: it is not being processed, not in the cache,
readable and not too large. -/
def unread (env : Env) (chain : List Path) (path : Path) (run : RunState) : Option String :=
  if chain.any (·.same path) then none
  else
    match run.cache.get? path, env.provider.read path with
    | none, .ok text => if env.options.limits.fileSize < text.utf8ByteSize then none else some text
    | _, _ => none

/-- The state in which the processing of a file starts. -/
def RunState.reading (run : RunState) (path : Path) : RunState :=
  { run with accesses := run.accesses ++ [.read path] }

/-- The state in which the items of a file are read. -/
def RunState.enter (run : RunState) (file text : String) : RunState :=
  let run := { run with sources := run.sources.insert file text }
  if (Lexeme.lex file text).isEmpty && !text.isEmpty then
    run.report (.inFile .directiveGrammar file)
  else run

section Course

variable (env : Env) (nested : Option Process) (below : Course)

/-- The includes of a file that is opened. -/
def openCourse (chain : List Path) (path : Path) (run : RunState) : List Inclusion :=
  match unread env chain path run with
  | some text => below (path :: chain) path.text text (run.reading path)
  | none => []

/-- An include and those it leads to. -/
def includeCourse (chain : List Path) (file spec : String) (run : RunState) : List Inclusion :=
  let (located, found) := lookUp env nested spec file run
  let (result, after) := findInclude env nested chain file spec run
  ⟨file, spec, chain, located, result, run, after⟩ ::
    match located with
    | some path => openCourse env below chain path found
    | none => []

def effectCourse (chain : List Path) (file : String) (run : RunState) : Effect → List Inclusion
  | .inclusion spec _ => includeCourse env nested below chain file spec run
  | _ => []

theorem effectCourse_of_plain (chain : List Path) (file : String) (run : RunState) {effect : Effect}
    (h : ∀ spec offset, effect ≠ .inclusion spec offset) :
    effectCourse env nested below chain file run effect = [] := by
  cases effect with
  | inclusion spec offset => exact absurd rfl (h spec offset)
  | _ => rfl

def scanCourse (chain : List Path) (file text : String) (st : FileState) (run : RunState) :
    List Lexeme → List Inclusion
  | [] => []
  | t :: rest =>
    let item := Item.read (run.expansionEnv env.options.limits) st.conditions t rest
    let run := { run with diagnostics := run.diagnostics ++ item.diagnostics }
    let after := applyEffect env nested chain file text st run item.effect
    effectCourse env nested below chain file run item.effect ++
      scanCourse chain file text after.1 after.2 item.rest
termination_by tokens => tokens.length
decreasing_by exact Nat.lt_succ_of_le (Item.length_read_le ..)

def fileCourse : Course := fun chain file text run =>
  scanCourse env nested below chain file text {} (run.enter file text) (Lexeme.lex file text)

end Course

/-- The includes of a file whose includes may nest up to `depth` levels. -/
def course (env : Env) : Nat → Course
  | 0 => fileCourse env none fun _ _ _ _ => []
  | depth + 1 => fileCourse env (some (process env depth)) (course env depth)

/-- The process for the files that a file includes; without levels left there is none. -/
def levels (env : Env) : Nat → Option Process
  | 0 => none
  | depth + 1 => some (process env depth)

/-- The includes of the files that a file includes. -/
def coursesBelow (env : Env) : Nat → Course
  | 0 => fun _ _ _ _ => []
  | depth + 1 => course env depth

theorem process_eq (env : Env) (depth : Nat) :
    process env depth = processFile env (levels env depth) := by
  cases depth <;> rfl

theorem course_eq (env : Env) (depth : Nat) :
    course env depth = fileCourse env (levels env depth) (coursesBelow env depth) := by
  cases depth <;> rfl

/-- The includes of a document. -/
def documentCourse (env : Env) (cache : IncludeCache) (file text : String) : List Inclusion :=
  if env.options.limits.fileSize < text.utf8ByteSize then []
  else
    course env env.options.limits.includeDepth [Path.normalize ⟨file⟩] file text
      (startState env cache)

/-! ### What an include can do -/

theorem processFile_eq (env : Env) (nested : Option Process) (chain : List Path)
    (file text : String) (run : RunState) :
    processFile env nested chain file text run =
      let (st, run) := scan env nested chain file text {} (run.enter file text)
        (Lexeme.lex file text)
      (⟨st.symbols, st.out.stream, st.includes, st.log, st.sources.insert file text⟩, run) := rfl

section Outcomes

variable (env : Env) (nested : Process) {chain : List Path} {file spec : String} {path : Path}
  {run found : RunState}

theorem findInclude_of_unresolved (h : locate env spec file run = (none, found)) :
    findInclude env (some nested) chain file spec run =
      (.error (.unresolvedInclude spec), found) := by
  simp only [findInclude, h]

theorem findInclude_of_located (h : locate env spec file run = (some path, found)) :
    findInclude env (some nested) chain file spec run =
      ((openInclude env nested chain path found).1.map fun file => (path, file),
        (openInclude env nested chain path found).2) := by
  simp only [findInclude, h]

theorem openInclude_of_cycle (h : chain.any (·.same path)) :
    openInclude env nested chain path run = (.error (.includeCycle path.text), run) := by
  rw [openInclude, if_pos h]

theorem openInclude_of_cached (hchain : ¬chain.any (·.same path)) {cached : IncludedFile}
    (h : run.cache.get? path = some cached) :
    openInclude env nested chain path run =
      (.ok cached, { run with
        macros := run.macros.replay cached.log, sources := run.sources.merge cached.sources }) := by
  rw [openInclude, if_neg hchain, h]

theorem openInclude_of_unread {text : String} (h : unread env chain path run = some text) :
    openInclude env nested chain path run =
      let (file, after) := nested (path :: chain) path.text text (run.reading path)
      (.ok file, { after with cache := after.cache.insert path file }) := by
  unfold unread at h
  split at h
  · cases h
  · next hchain =>
    split at h
    · next hcache hread =>
      split at h
      · cases h
      · next hsize =>
        cases h
        simp only [openInclude, if_neg hchain, hcache, hread, if_neg hsize]
        rfl
    · cases h

theorem unread_eq_some {text : String} (h : unread env chain path run = some text) :
    ¬chain.any (·.same path) ∧ run.cache.get? path = none ∧ env.provider.read path = .ok text ∧
      ¬env.options.limits.fileSize < text.utf8ByteSize := by
  unfold unread at h
  split at h
  · cases h
  · next hchain =>
    split at h
    · next hcache hread =>
      split at h
      · cases h
      · next hsize =>
        cases h
        exact ⟨hchain, hcache, hread, hsize⟩
    · cases h

/-- A file that is opened is refused, taken from the cache or processed. -/
theorem openInclude_cases (chain : List Path) (path : Path) (run : RunState) :
    (∃ problem after, openInclude env nested chain path run = (.error problem, after) ∧
        (after = run ∨ after = run.reading path) ∧ unread env chain path run = none) ∨
      (∃ cached, ¬chain.any (·.same path) ∧ run.cache.get? path = some cached ∧
        unread env chain path run = none) ∨
      ∃ text, unread env chain path run = some text := by
  unfold unread
  by_cases hchain : chain.any (·.same path)
  · exact .inl ⟨_, run, openInclude_of_cycle env nested hchain, .inl rfl, if_pos hchain⟩
  · simp only [if_neg hchain]
    cases hcache : run.cache.get? path with
    | some cached => exact .inr (.inl ⟨cached, hchain, rfl, rfl⟩)
    | none =>
      cases hread : env.provider.read path with
      | error reason =>
        refine .inl ⟨.unreadable path.text reason, run.reading path, ?_, .inr rfl, rfl⟩
        simp only [openInclude, if_neg hchain, hcache, hread]
        rfl
      | ok text =>
        by_cases hsize : env.options.limits.fileSize < text.utf8ByteSize
        · refine .inl ⟨.includeTooLarge path.text text.utf8ByteSize env.options.limits.fileSize,
            run.reading path, ?_, .inr rfl, by simp [hsize]⟩
          simp only [openInclude, if_neg hchain, hcache, hread, if_pos hsize]
          rfl
        · exact .inr (.inr ⟨text, by simp [hsize]⟩)

end Outcomes

/-! ### Looking for files -/

section Locate

variable (env : Env) (spec including : String) (run : RunState)

theorem cache_locate_get? (path : Path) :
    (locate env spec including run).2.cache.get? path = run.cache.get? path := by
  unfold locate
  split
  · rfl
  · split <;> rfl

theorem sources_locate : (locate env spec including run).2.sources = run.sources := by
  unfold locate
  split
  · rfl
  · split <;> rfl

theorem diagnostics_locate : (locate env spec including run).2.diagnostics = run.diagnostics := by
  unfold locate
  split
  · rfl
  · split <;> rfl

/-- An include finds what its text was resolved to before, and otherwise what it is resolved to now,
which is then remembered. -/
theorem resolved?_locate {located : Option Path} {found : RunState}
    (h : locate env spec including run = (located, found)) :
    located = (run.cache.resolved? spec).or (resolve env spec including) ∧
      ∀ s, found.cache.resolved? s = if s = spec then located else run.cache.resolved? s := by
  unfold locate at h
  split at h
  · next path hpath =>
    cases h
    refine ⟨by rw [hpath, Option.some_or], fun s => ?_⟩
    split
    · next hs => rw [hs, hpath]
    · rfl
  · next hnone =>
    split at h
    · next hresolve =>
      cases h
      refine ⟨by rw [hnone, hresolve, Option.none_or], fun s => ?_⟩
      split
      · next hs => rw [hs, hnone]
      · rfl
    · next path hresolve =>
      cases h
      exact ⟨by rw [hnone, hresolve, Option.none_or], run.cache.resolved?_remember spec path⟩

end Locate

/-! ### What a step leaves as it is -/

section Enter

variable (run : RunState) (file text : String)

@[simp]
theorem cache_enter : (run.enter file text).cache = run.cache := by
  unfold RunState.enter
  split <;> rfl

@[simp]
theorem macros_enter : (run.enter file text).macros = run.macros := by
  unfold RunState.enter
  split <;> rfl

@[simp]
theorem sources_enter : (run.enter file text).sources = run.sources.insert file text := by
  unfold RunState.enter
  split <;> rfl

end Enter

/-- Only an include touches the cache, the texts and the names of included files. -/
theorem frame_applyEffect (env : Env) (nested : Option Process) (chain : List Path)
    (file text : String) (st : FileState) (run : RunState) {effect : Effect}
    (h : ∀ spec offset, effect ≠ .inclusion spec offset) :
    (applyEffect env nested chain file text st run effect).1.includes = st.includes ∧
      (applyEffect env nested chain file text st run effect).1.sources = st.sources ∧
      (applyEffect env nested chain file text st run effect).2.cache = run.cache ∧
      (applyEffect env nested chain file text st run effect).2.sources = run.sources := by
  cases effect with
  | inclusion spec offset => exact absurd rfl (h spec offset)
  | _ => exact ⟨rfl, rfl, rfl, rfl⟩

/-! ### Invariants -/

/-- A file that is processed: what it is given. -/
structure Task where
  chain : List Path
  file : String
  text : String
  start : RunState

/-- Whether two states differ at most in what was reported and asked. -/
def RunState.Agrees (a b : RunState) : Prop :=
  a.cache = b.cache ∧ a.macros = b.macros ∧ a.sources = b.sources

/-- A statement about the processing of files: `During` holds while the items of a file are read and
`Behind` of its result, both with the includes so far. What is reported and asked does not matter to
them, and each item and each outcome of an include preserves them. -/
structure Invariant (env : Env)
    (During : Task → FileState → RunState → List Inclusion → Prop)
    (Behind : Task → IncludedFile → RunState → List Inclusion → Prop) : Prop where
  enter (task : Task) : During task {} (task.start.enter task.file task.text) []
  agrees {task : Task} {st : FileState} {run : RunState} {done : List Inclusion}
    (h : During task st run done) {other : RunState} (hother : other.Agrees run) :
    During task st other done
  effect {task : Task} {st : FileState} {run : RunState} {done : List Inclusion}
    (h : During task st run done) (nested : Option Process) {t : Lexeme} {rest : List Lexeme}
    (ht : t :: rest <:+ Lexeme.lex task.file task.text) {effect : Effect}
    (heffect :
      effect = (Item.read (run.expansionEnv env.options.limits) st.conditions t rest).effect)
    (hplain : ∀ spec offset, effect ≠ .inclusion spec offset) :
    During task (applyEffect env nested task.chain task.file task.text st run effect).1
      (applyEffect env nested task.chain task.file task.text st run effect).2 done
  refused {task : Task} {st : FileState} {run : RunState} {done : List Inclusion}
    (h : During task st run done) {spec : String} {located : Option Path} {found after : RunState}
    (hlocated : locate env spec task.file run = (located, found) ∨ located = none ∧ found = run)
    (problem : Problem) :
    During task st found
      (done ++ [⟨task.file, spec, task.chain, located, .error problem, run, after⟩])
  cached {task : Task} {st : FileState} {run : RunState} {done : List Inclusion}
    (h : During task st run done) {spec : String} {path : Path} {found : RunState}
    (hlocated : locate env spec task.file run = (some path, found))
    (hchain : ¬task.chain.any (·.same path)) {file : IncludedFile}
    (hfile : found.cache.get? path = some file) {after : RunState}
    (hafter : after = { found with
      macros := found.macros.replay file.log, sources := found.sources.merge file.sources }) :
    During task (st.splice path file) after
      (done ++ [⟨task.file, spec, task.chain, some path, .ok (path, file), run, after⟩])
  processed {task : Task} {st : FileState} {run : RunState} {done : List Inclusion}
    (h : During task st run done) {spec : String} {path : Path} {found : RunState}
    (hlocated : locate env spec task.file run = (some path, found)) {text : String}
    (htext : unread env task.chain path found = some text) {file : IncludedFile} {left : RunState}
    {inner : List Inclusion}
    (hfile : Behind ⟨path :: task.chain, path.text, text, found.reading path⟩ file left inner)
    {after : RunState} (hafter : after = { left with cache := left.cache.insert path file }) :
    During task (st.splice path file) after
      (done ++ ⟨task.file, spec, task.chain, some path, .ok (path, file), run, after⟩ :: inner)
  leave {task : Task} {st : FileState} {run : RunState} {done : List Inclusion}
    (h : During task st run done) :
    Behind task
      ⟨st.symbols, st.out.stream, st.includes, st.log, st.sources.insert task.file task.text⟩ run done

namespace Invariant

variable {env : Env} {During : Task → FileState → RunState → List Inclusion → Prop}
  {Behind : Task → IncludedFile → RunState → List Inclusion → Prop}

/-- The files that an include leads to are processed as the invariant says. -/
def Nested (Behind : Task → IncludedFile → RunState → List Inclusion → Prop)
    (nested : Option Process) (below : Course) : Prop :=
  ∀ process ∈ nested, ∀ chain file text start,
    Behind ⟨chain, file, text, start⟩ (process chain file text start).1
      (process chain file text start).2 (below chain file text start)

section

variable (inv : Invariant env During Behind) {nested : Option Process} {below : Course}
  (hnested : Nested Behind nested below) {task : Task} {st : FileState} {run : RunState}
  {done : List Inclusion}
include inv hnested

theorem inclusion (h : During task st run done) (spec : String) (offset : Nat) :
    During task
      (applyEffect env nested task.chain task.file task.text st run (.inclusion spec offset)).1
      (applyEffect env nested task.chain task.file task.text st run (.inclusion spec offset)).2
      (done ++ includeCourse env nested below task.chain task.file spec run) := by
  cases nested with
  | none =>
    exact inv.agrees (inv.refused h (.inr ⟨rfl, rfl⟩) _) ⟨rfl, rfl, rfl⟩
  | some process =>
    rcases hlocated : locate env spec task.file run with ⟨_ | path, found⟩
    · simp only [applyEffect, includeCourse, lookUp, hlocated,
        findInclude_of_unresolved env process hlocated]
      exact inv.agrees (inv.refused h (.inl hlocated) _) ⟨rfl, rfl, rfl⟩
    · simp only [applyEffect, includeCourse, lookUp, hlocated,
        findInclude_of_located env process hlocated]
      rcases openInclude_cases env process task.chain path found with
        ⟨problem, after, hopen, hafter, hunread⟩ | ⟨file, hchain, hfile, hunread⟩ | ⟨text, htext⟩
      · simp only [hopen, openCourse, hunread, Except.map]
        refine inv.agrees (inv.refused h (.inl hlocated) problem) ?_
        rcases hafter with rfl | rfl <;> exact ⟨rfl, rfl, rfl⟩
      · simp only [openInclude_of_cached env process hchain hfile, openCourse, hunread, Except.map]
        exact inv.cached h hlocated hchain hfile rfl
      · simp only [openInclude_of_unread env process htext, openCourse, htext, Except.map]
        exact inv.processed h hlocated htext (hnested process rfl _ _ _ _) rfl

theorem scan (st : FileState) (run : RunState) (tokens : List Lexeme)
    (htokens : tokens <:+ Lexeme.lex task.file task.text) :
    ∀ done, During task st run done →
      During task (Preprocess.scan env nested task.chain task.file task.text st run tokens).1
        (Preprocess.scan env nested task.chain task.file task.text st run tokens).2
        (done ++ scanCourse env nested below task.chain task.file task.text st run tokens) := by
  fun_induction Preprocess.scan env nested task.chain task.file task.text st run tokens with
  | case1 st run hc =>
    intro done h
    rwa [scanCourse, List.append_nil]
  | case2 st run hc =>
    intro done h
    rw [scanCourse, List.append_nil]
    exact inv.agrees h ⟨rfl, rfl, rfl⟩
  | case3 st run t rest item before next after heq ih =>
    intro done h
    have hbefore : During task st before done := inv.agrees h ⟨rfl, rfl, rfl⟩
    have hstep : During task next after
        (done ++ effectCourse env nested below task.chain task.file before item.effect) := by
      rcases item.effect.inclusion_or_plain with ⟨spec, offset, heffect⟩ | hplain
      · have hincluded := inv.inclusion hnested hbefore spec offset
        rw [heffect] at heq ⊢
        rwa [heq] at hincluded
      · have hitem : item.effect =
            (Item.read (before.expansionEnv env.options.limits) st.conditions t rest).effect := rfl
        have hdone := inv.effect hbefore nested htokens hitem hplain
        rw [heq] at hdone
        rwa [effectCourse_of_plain env nested below _ _ _ hplain, List.append_nil]
    have hrest : item.rest <:+ Lexeme.lex task.file task.text :=
      (Item.read_suffix _ _ t rest).trans ((List.suffix_cons t rest).trans htokens)
    have hcourse : scanCourse env nested below task.chain task.file task.text st run (t :: rest) =
        effectCourse env nested below task.chain task.file before item.effect ++
          scanCourse env nested below task.chain task.file task.text next after item.rest := by
      rw [scanCourse]
      simp only [heq, item, before]
    rw [hcourse, ← List.append_assoc]
    exact ih hrest _ hstep

theorem processFile (chain : List Path) (file text : String) (start : RunState) :
    Behind ⟨chain, file, text, start⟩ (Preprocess.processFile env nested chain file text start).1
      (Preprocess.processFile env nested chain file text start).2
      (fileCourse env nested below chain file text start) := by
  let task : Task := ⟨chain, file, text, start⟩
  have hscan := inv.scan hnested {} (start.enter file text) (Lexeme.lex file text)
    (List.suffix_refl _) [] (inv.enter task)
  exact inv.leave hscan

end

/-- What each step preserves holds of every file, whatever files it includes and however deep. -/
theorem process (inv : Invariant env During Behind) (depth : Nat) (chain : List Path)
    (file text : String) (start : RunState) :
    Behind ⟨chain, file, text, start⟩ (Preprocess.process env depth chain file text start).1
      (Preprocess.process env depth chain file text start).2
      (course env depth chain file text start) := by
  induction depth generalizing chain file text start with
  | zero => exact inv.processFile (by simp [Nested]) chain file text start
  | succ depth ih =>
    refine inv.processFile ?_ chain file text start
    rintro process ⟨⟩ chain file text start
    exact ih chain file text start

end Invariant

end Preprocess

end HdlIndex
