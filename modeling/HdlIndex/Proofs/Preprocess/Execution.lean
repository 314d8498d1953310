import HdlIndex.Proofs.Preprocess.ChangeLog
import HdlIndex.Proofs.Preprocess.Course

/-! Runs as derivations. `Reads` says what the items of a file do, by one rule for each way in which
an item can go: it stays within the file, or it includes a file that is refused, taken from the cache
or processed. The last rule holds the derivation for the file that is processed, so whatever holds of
whole runs is shown by one induction. The invocations that are expanded are noted along the way.
Every run has such a derivation (`reads_process`, `reads_document`). -/

namespace HdlIndex

/-- Something holds of all texts that were resolved and the paths that they were resolved to. -/
def IncludeCache.ResolvesTo (c : IncludeCache) (Q : String → Path → Prop) : Prop :=
  ∀ spec path, c.resolved? spec = some path → Q spec path

theorem IncludeCache.resolvesTo_empty (Q : String → Path → Prop) : empty.ResolvesTo Q := by
  intro spec path h
  cases h

namespace Preprocess

/-- A file that is being read: how deep its includes may nest, the paths of the file and of those
around it, its name and its text. -/
structure Site where
  depth : Nat
  chain : List Path
  file : String
  text : String

namespace Site

/-- A file that is included in another one. -/
def inside (site : Site) (depth : Nat) (path : Path) (text : String) : Site :=
  ⟨depth, path :: site.chain, path.text, text⟩

section Inside

variable (site : Site) (depth : Nat) (path : Path) (text : String)

@[simp] theorem depth_inside : (site.inside depth path text).depth = depth := rfl
@[simp] theorem chain_inside : (site.inside depth path text).chain = path :: site.chain := rfl
@[simp] theorem file_inside : (site.inside depth path text).file = path.text := rfl
@[simp] theorem text_inside : (site.inside depth path text).text = text := rfl

end Inside

def tokens (site : Site) : List Lexeme := Lexeme.lex site.file site.text

end Site

/-- What a file is kept as when all its items have been read. -/
def FileState.contents (st : FileState) (file text : String) : IncludedFile :=
  ⟨st.symbols, st.out.stream, st.includes, st.log, st.sources.insert file text⟩

namespace RunState

def noting (run : RunState) (diagnostics : List Diagnostic) : RunState :=
  { run with diagnostics := run.diagnostics ++ diagnostics }

/-- Reports conditionals that are still open at the end of a file. -/
def close (run : RunState) (file : String) (conditions : List Bool) : RunState :=
  if conditions.isEmpty then run else run.report (.inFile (.missingEndif conditions.length) file)

/-- Makes the edits and takes the texts of a file that is known. -/
def adopt (run : RunState) (file : IncludedFile) : RunState :=
  { run with macros := run.macros.replay file.log, sources := run.sources.merge file.sources }

def store (run : RunState) (path : Path) (file : IncludedFile) : RunState :=
  { run with cache := run.cache.insert path file }

/-- Two states of a run hold the same files, definitions and texts. -/
structure HoldsSame (other run : RunState) : Prop where
  files : ∀ path, other.cache.get? path = run.cache.get? path
  macros : other.macros = run.macros
  sources : other.sources = run.sources

theorem holdsSame_close (run : RunState) (file : String) (conditions : List Bool) :
    (run.close file conditions).HoldsSame run := by
  unfold close
  split <;> exact ⟨fun _ => rfl, rfl, rfl⟩

/-- All files that a run holds are such. -/
def Keeps (P : IncludedFile → Prop) (run : RunState) : Prop :=
  ∀ path file, run.cache.get? path = some file → P file

namespace Keeps

variable {P : IncludedFile → Prop} {run other : RunState}

theorem of_get? (h : run.Keeps P)
    (hother : ∀ path, other.cache.get? path = run.cache.get? path) : other.Keeps P :=
  fun path file hfile => h path file (hother path ▸ hfile)

theorem store (h : run.Keeps P) (path : Path) {file : IncludedFile} (hfile : P file) :
    (run.store path file).Keeps P := by
  intro other kept hkept
  rw [RunState.store, IncludeCache.get?_insert] at hkept
  split at hkept
  · cases hkept
    exact hfile
  · exact h other kept hkept

end Keeps

end RunState

/-! ### Invocations -/

/-- The invocations that are expanded while a file is processed, in order. -/
abbrev Invocations := List Path → String → String → RunState → List Lexeme

/-- The invocations that an item expands itself. -/
def Effect.invocations (t : Lexeme) : Effect → List Lexeme
  | .expansion _ => [t]
  | _ => []

section Invocations

variable (env : Env) (nested : Option Process) (below : Invocations)

def includeInvocations (chain : List Path) (file spec : String) (run : RunState) : List Lexeme :=
  match lookUp env nested spec file run with
  | (none, _) => []
  | (some path, found) =>
    match unread env chain path found with
    | none => []
    | some text => below (path :: chain) path.text text (found.reading path)

def effectInvocations (chain : List Path) (file : String) (run : RunState) (t : Lexeme) :
    Effect → List Lexeme
  | .inclusion spec _ => includeInvocations env nested below chain file spec run
  | effect => Effect.invocations t effect

theorem effectInvocations_of_plain (chain : List Path) (file : String) (run : RunState) (t : Lexeme)
    {effect : Effect} (h : ∀ spec offset, effect ≠ .inclusion spec offset) :
    effectInvocations env nested below chain file run t effect = Effect.invocations t effect := by
  cases effect with
  | inclusion spec offset => exact absurd rfl (h spec offset)
  | _ => rfl

def scanInvocations (chain : List Path) (file text : String) (st : FileState) (run : RunState) :
    List Lexeme → List Lexeme
  | [] => []
  | t :: rest =>
    let item := Item.read (run.expansionEnv env.options.limits) st.conditions t rest
    let run := run.noting item.diagnostics
    let after := applyEffect env nested chain file text st run item.effect
    effectInvocations env nested below chain file run t item.effect ++
      scanInvocations chain file text after.1 after.2 item.rest
termination_by tokens => tokens.length
decreasing_by exact Nat.lt_succ_of_le (Item.length_read_le ..)

def fileInvocations : Invocations := fun chain file text run =>
  scanInvocations env nested below chain file text {} (run.enter file text) (Lexeme.lex file text)

end Invocations

/-- The invocations of a file whose includes may nest up to `depth` levels, and of the files that it
includes. -/
def invocations (env : Env) : Nat → Invocations
  | 0 => fileInvocations env none fun _ _ _ _ => []
  | depth + 1 => fileInvocations env (some (process env depth)) (invocations env depth)

/-- The invocations of the files that a file includes. -/
def invocationsBelow (env : Env) : Nat → Invocations
  | 0 => fun _ _ _ _ => []
  | depth + 1 => invocations env depth

/-- The invocations that are expanded in a document and in the files that it includes. -/
def documentInvocations (env : Env) (cache : IncludeCache) (file text : String) : List Lexeme :=
  if env.options.limits.fileSize < text.utf8ByteSize then []
  else
    invocations env env.options.limits.includeDepth [Path.normalize ⟨file⟩] file text
      (startState env cache)

/-! ### Derivations -/

/-- An include that is refused, with the problem and the state behind it. -/
inductive Refuses (env : Env) (site : Site) (spec : String) (run : RunState) :
    Problem → RunState → Prop where
  | tooDeep (hdepth : site.depth = 0) :
      Refuses env site spec run (.includeDepth env.options.limits.includeDepth spec) run
  | unresolved {depth : Nat} (hdepth : site.depth = depth + 1) {found : RunState}
      (hlocated : locate env spec site.file run = (none, found)) :
      Refuses env site spec run (.unresolvedInclude spec) found
  | cycle {depth : Nat} (hdepth : site.depth = depth + 1) {path : Path} {found : RunState}
      (hlocated : locate env spec site.file run = (some path, found))
      (hchain : site.chain.any (·.same path)) :
      Refuses env site spec run (.includeCycle path.text) found
  | unreadable {depth : Nat} (hdepth : site.depth = depth + 1) {path : Path} {found : RunState}
      (hlocated : locate env spec site.file run = (some path, found))
      (hchain : ¬site.chain.any (·.same path)) (hcache : found.cache.get? path = none)
      {reason : String} (hread : env.provider.read path = .error reason) :
      Refuses env site spec run (.unreadable path.text reason) (found.reading path)
  | tooLarge {depth : Nat} (hdepth : site.depth = depth + 1) {path : Path} {found : RunState}
      (hlocated : locate env spec site.file run = (some path, found))
      (hchain : ¬site.chain.any (·.same path)) (hcache : found.cache.get? path = none)
      {text : String} (hread : env.provider.read path = .ok text)
      (hsize : env.options.limits.fileSize < text.utf8ByteSize) :
      Refuses env site spec run
        (.includeTooLarge path.text text.utf8ByteSize env.options.limits.fileSize)
        (found.reading path)

/-- The items of a file from some token on lead from one state to another, and these invocations are
expanded on the way. -/
inductive Reads (env : Env) :
    Site → FileState → RunState → List Lexeme → FileState → RunState → List Lexeme → Prop where
  | finish (site : Site) (st : FileState) (run : RunState) :
      Reads env site st run [] st (run.close site.file st.conditions) []
  /-- An item that includes no file. -/
  | plain {site : Site} {st next last : FileState} {run after final : RunState} {t : Lexeme}
      {rest invoked : List Lexeme} (htokens : t :: rest <:+ site.tokens) {item : Item}
      (hitem : Item.read (run.expansionEnv env.options.limits) st.conditions t rest = item)
      (hplain : ∀ spec offset, item.effect ≠ .inclusion spec offset)
      (happly : applyEffect env none site.chain site.file site.text st
        (run.noting item.diagnostics) item.effect = (next, after))
      (hrest : Reads env site next after item.rest last final invoked) :
      Reads env site st run (t :: rest) last final (Effect.invocations t item.effect ++ invoked)
  | refused {site : Site} {st last : FileState} {run after final : RunState} {t : Lexeme}
      {rest invoked : List Lexeme} {item : Item}
      (hitem : Item.read (run.expansionEnv env.options.limits) st.conditions t rest = item)
      {spec : String} {offset : Nat} (heffect : item.effect = .inclusion spec offset)
      {problem : Problem}
      (hrefused : Refuses env site spec (run.noting item.diagnostics) problem after)
      (hrest : Reads env site st (after.report (.located problem site.file offset)) item.rest last
        final invoked) :
      Reads env site st run (t :: rest) last final invoked
  | cached {site : Site} {st last : FileState} {run found final : RunState} {t : Lexeme}
      {rest invoked : List Lexeme} {item : Item}
      (hitem : Item.read (run.expansionEnv env.options.limits) st.conditions t rest = item)
      {spec : String} {offset : Nat} (heffect : item.effect = .inclusion spec offset) {depth : Nat}
      (hdepth : site.depth = depth + 1) {path : Path}
      (hlocated : locate env spec site.file (run.noting item.diagnostics) = (some path, found))
      (hchain : ¬site.chain.any (·.same path)) {file : IncludedFile}
      (hfile : found.cache.get? path = some file)
      (hrest : Reads env site (st.splice path file) (found.adopt file) item.rest last final
        invoked) :
      Reads env site st run (t :: rest) last final invoked
  | processed {site : Site} {st inner last : FileState} {run found left final : RunState}
      {t : Lexeme} {rest within invoked : List Lexeme} {item : Item}
      (hitem : Item.read (run.expansionEnv env.options.limits) st.conditions t rest = item)
      {spec : String} {offset : Nat} (heffect : item.effect = .inclusion spec offset) {depth : Nat}
      (hdepth : site.depth = depth + 1) {path : Path}
      (hlocated : locate env spec site.file (run.noting item.diagnostics) = (some path, found))
      {text : String} (htext : unread env site.chain path found = some text)
      (hinner : Reads env (site.inside depth path text) {} ((found.reading path).enter path.text text)
        (site.inside depth path text).tokens inner left within)
      (hrest : Reads env site (st.splice path (inner.contents path.text text))
        (left.store path (inner.contents path.text text)) item.rest last final invoked) :
      Reads env site st run (t :: rest) last final (within ++ invoked)

/-! ### Every run has a derivation -/

/-- The files that a file at this place includes are read as the rules say. -/
def ReadsBelow (env : Env) (site : Site) : Prop :=
  ∀ depth, site.depth = depth + 1 → ∀ path text run, ∃ inner,
    Reads env (site.inside depth path text) {} (run.enter path.text text)
      (site.inside depth path text).tokens inner
      (process env depth (path :: site.chain) path.text text run).2
      (invocations env depth (path :: site.chain) path.text text run) ∧
    (process env depth (path :: site.chain) path.text text run).1 = inner.contents path.text text

theorem applyEffect_of_plain (env : Env) (nested : Option Process) (chain : List Path)
    (file text : String) (st : FileState) (run : RunState) {effect : Effect}
    (h : ∀ spec offset, effect ≠ .inclusion spec offset) :
    applyEffect env nested chain file text st run effect =
      applyEffect env none chain file text st run effect := by
  cases effect with
  | inclusion spec offset => exact absurd rfl (h spec offset)
  | _ => rfl

section Include

/-- An include is refused, taken from the cache or processed. -/
theorem findInclude_cases (env : Env) (site : Site) (spec : String) (run : RunState) :
    (∃ problem after, Refuses env site spec run problem after ∧
        findInclude env (levels env site.depth) site.chain site.file spec run =
          (.error problem, after)) ∨
      ∃ depth path found, site.depth = depth + 1 ∧
        locate env spec site.file run = (some path, found) ∧
        ((∃ file, ¬site.chain.any (·.same path) ∧ found.cache.get? path = some file ∧
            findInclude env (levels env site.depth) site.chain site.file spec run =
              (.ok (path, file), found.adopt file)) ∨
          ∃ text, unread env site.chain path found = some text ∧
            findInclude env (levels env site.depth) site.chain site.file spec run =
              let (file, after) :=
                process env depth (path :: site.chain) path.text text (found.reading path)
              (.ok (path, file), after.store path file)) := by
  rcases hdepth : site.depth with _ | depth
  · exact .inl ⟨_, run, .tooDeep hdepth, rfl⟩
  rcases hlocated : locate env spec site.file run with ⟨_ | path, found⟩
  · exact .inl ⟨_, found, .unresolved hdepth hlocated, findInclude_of_unresolved env _ hlocated⟩
  simp only [levels, findInclude_of_located env _ hlocated]
  by_cases hchain : site.chain.any (·.same path)
  · rw [openInclude_of_cycle env _ hchain]
    exact .inl ⟨_, found, .cycle hdepth hlocated hchain, rfl⟩
  cases hcache : found.cache.get? path with
  | some file =>
    rw [openInclude_of_cached env _ hchain hcache]
    exact .inr ⟨depth, path, found, rfl, rfl, .inl ⟨file, hchain, hcache, rfl⟩⟩
  | none =>
    cases hread : env.provider.read path with
    | error reason =>
      simp only [openInclude, if_neg hchain, hcache, hread]
      exact .inl ⟨_, found.reading path, .unreadable hdepth hlocated hchain hcache hread, rfl⟩
    | ok text =>
      by_cases hsize : env.options.limits.fileSize < text.utf8ByteSize
      · simp only [openInclude, if_neg hchain, hcache, hread, if_pos hsize]
        exact .inl ⟨_, found.reading path, .tooLarge hdepth hlocated hchain hcache hread hsize, rfl⟩
      · have hunread : unread env site.chain path found = some text := by
          simp only [unread, if_neg hchain, hcache, hread, if_neg hsize]
        rw [openInclude_of_unread env _ hunread]
        exact .inr ⟨depth, path, found, rfl, rfl, .inr ⟨text, hunread, rfl⟩⟩

/-- Nothing is read for an include that is refused. -/
theorem includeInvocations_of_refuses {env : Env} {site : Site} {spec : String}
    {run after : RunState} {problem : Problem} (h : Refuses env site spec run problem after)
    (below : Invocations) :
    includeInvocations env (levels env site.depth) below site.chain site.file spec run = [] := by
  cases h with
  | tooDeep hdepth => simp only [includeInvocations, hdepth, levels, lookUp]
  | unresolved hdepth hlocated => simp only [includeInvocations, hdepth, levels, lookUp, hlocated]
  | cycle hdepth hlocated hchain =>
    simp only [includeInvocations, hdepth, levels, lookUp, hlocated, unread, if_pos hchain]
  | unreadable hdepth hlocated hchain hcache hread =>
    simp only [includeInvocations, hdepth, levels, lookUp, hlocated, unread, if_neg hchain, hcache,
      hread]
  | tooLarge hdepth hlocated hchain hcache hread hsize =>
    simp only [includeInvocations, hdepth, levels, lookUp, hlocated, unread, if_neg hchain, hcache,
      hread, if_pos hsize]

end Include

section Scan

variable {env : Env} {site : Site} {st : FileState} {run : RunState} {t : Lexeme}
  {rest : List Lexeme} {item : Item} {spec : String} {offset : Nat}

/-- The rule for an include, from what is done with it. -/
theorem reads_inclusion (hbelow : ReadsBelow env site)
    (hitem : Item.read (run.expansionEnv env.options.limits) st.conditions t rest = item)
    (heffect : item.effect = .inclusion spec offset) {next last : FileState}
    {after final : RunState} {invoked : List Lexeme}
    (happly : applyEffect env (levels env site.depth) site.chain site.file site.text st
      (run.noting item.diagnostics) (.inclusion spec offset) = (next, after))
    (hrest : Reads env site next after item.rest last final invoked) :
    Reads env site st run (t :: rest) last final
      (includeInvocations env (levels env site.depth) (invocationsBelow env site.depth) site.chain
        site.file spec (run.noting item.diagnostics) ++ invoked) := by
  rcases findInclude_cases env site spec (run.noting item.diagnostics) with
    ⟨problem, refused, hrefused, hfound⟩ | ⟨depth, path, found, hdepth, hlocated, hopened⟩
  · simp only [applyEffect, hfound] at happly
    cases happly
    rw [includeInvocations_of_refuses hrefused]
    exact .refused hitem heffect hrefused hrest
  rcases hopened with ⟨file, hchain, hcache, hfound⟩ | ⟨text, hunread, hfound⟩
  · simp only [applyEffect, hfound] at happly
    cases happly
    simp only [hdepth, levels, includeInvocations, lookUp, hlocated, unread, if_neg hchain, hcache]
    exact .cached hitem heffect hdepth hlocated hchain hcache hrest
  · simp only [applyEffect, hfound] at happly
    cases happly
    obtain ⟨inner, hinner, hcontents⟩ := hbelow depth hdepth path text (found.reading path)
    rw [hcontents] at hrest
    simp only [hdepth, levels, invocationsBelow, includeInvocations, lookUp, hlocated, hunread]
    exact .processed hitem heffect hdepth hlocated hunread hinner hrest

theorem reads_scan (hbelow : ReadsBelow env site) (st : FileState) (run : RunState)
    (tokens : List Lexeme) (htokens : tokens <:+ site.tokens) :
    Reads env site st run tokens
      (scan env (levels env site.depth) site.chain site.file site.text st run tokens).1
      (scan env (levels env site.depth) site.chain site.file site.text st run tokens).2
      (scanInvocations env (levels env site.depth) (invocationsBelow env site.depth) site.chain
        site.file site.text st run tokens) := by
  fun_induction scan env (levels env site.depth) site.chain site.file site.text st run tokens with
  | case1 st run hconditions =>
    have hfinish : Reads env site st run [] st (run.close site.file st.conditions) [] :=
      .finish site st run
    rw [scanInvocations]
    simpa only [RunState.close, if_pos hconditions] using hfinish
  | case2 st run hconditions =>
    have hfinish : Reads env site st run [] st (run.close site.file st.conditions) [] :=
      .finish site st run
    rw [scanInvocations]
    simpa only [RunState.close, if_neg hconditions] using hfinish
  | case3 st run t rest item before next after heq ih =>
    have hrest := ih ((Item.read_suffix _ _ t rest).trans ((List.suffix_cons t rest).trans htokens))
    have hitem : Item.read (run.expansionEnv env.options.limits) st.conditions t rest = item := rfl
    have hbefore : run.noting item.diagnostics = before := rfl
    rw [scanInvocations]
    simp only [hitem, hbefore, heq]
    rcases item.effect.inclusion_or_plain with ⟨spec, offset, heffect⟩ | hplain
    · rw [heffect] at heq ⊢
      exact reads_inclusion hbelow hitem heffect heq hrest
    · rw [effectInvocations_of_plain env _ _ _ _ _ _ hplain]
      rw [applyEffect_of_plain env _ _ _ _ _ _ hplain] at heq
      exact .plain htokens hitem hplain heq hrest

end Scan

/-- Every file that is processed is read as the rules say. -/
theorem reads_process (env : Env) (depth : Nat) (chain : List Path) (file text : String)
    (run : RunState) :
    ∃ last, Reads env ⟨depth, chain, file, text⟩ {} (run.enter file text) (Lexeme.lex file text) last
        (process env depth chain file text run).2 (invocations env depth chain file text run) ∧
      (process env depth chain file text run).1 = last.contents file text := by
  induction depth generalizing chain file text run with
  | zero =>
    have hbelow : ReadsBelow env ⟨0, chain, file, text⟩ := by simp [ReadsBelow]
    exact ⟨_, reads_scan hbelow {} (run.enter file text) _ (List.suffix_refl _), rfl⟩
  | succ depth ih =>
    have hbelow : ReadsBelow env ⟨depth + 1, chain, file, text⟩ := by
      rintro _ ⟨⟩ path text run
      exact ih (path :: chain) path.text text run
    exact ⟨_, reads_scan hbelow {} (run.enter file text) _ (List.suffix_refl _), rfl⟩

/-- The document itself, with nothing around it. -/
def documentSite (env : Env) (file text : String) : Site :=
  ⟨env.options.limits.includeDepth, [Path.normalize ⟨file⟩], file, text⟩

/-- Every document that is not too large is read as the rules say. -/
theorem reads_document (env : Env) (cache : IncludeCache) {file text : String}
    (hsize : ¬env.options.limits.fileSize < text.utf8ByteSize) :
    ∃ last final,
      Reads env (documentSite env file text) {} ((startState env cache).enter file text)
        (documentSite env file text).tokens last final (documentInvocations env cache file text) ∧
      document env cache file text =
        ({ file
           symbols := last.symbols
           stream := last.out.stream
           includes := last.includes
           macros := final.macros
           sources := final.sources
           diagnostics := final.diagnostics }, final) := by
  obtain ⟨last, hreads, hcontents⟩ := reads_process env env.options.limits.includeDepth
    [Path.normalize ⟨file⟩] file text (startState env cache)
  have hinvoked : documentInvocations env cache file text = invocations env
      env.options.limits.includeDepth [Path.normalize ⟨file⟩] file text (startState env cache) :=
    if_neg hsize
  refine ⟨last, _, hinvoked ▸ hreads, ?_⟩
  simp only [document, if_neg hsize, hcontents]
  rfl

/-! ### What is left as it was -/

theorem locate_frame {env : Env} {spec including : String} {run found : RunState}
    {located : Option Path} (h : locate env spec including run = (located, found)) :
    found.HoldsSame run := by
  have hcache := cache_locate_get? env spec including run
  have hmacros := macros_locate env spec including run
  have hsources := sources_locate env spec including run
  rw [h] at hcache hmacros hsources
  exact ⟨hcache, hmacros, hsources⟩

theorem Refuses.frame {env : Env} {site : Site} {spec : String} {run after : RunState}
    {problem : Problem} (h : Refuses env site spec run problem after) : after.HoldsSame run := by
  cases h with
  | tooDeep => exact ⟨fun _ => rfl, rfl, rfl⟩
  | unresolved _ hlocated | cycle _ hlocated => exact locate_frame hlocated
  | unreadable _ hlocated | tooLarge _ hlocated =>
    obtain ⟨hcache, hmacros, hsources⟩ := locate_frame hlocated
    exact ⟨hcache, hmacros, hsources⟩

/-! ### Resolved paths

What holds of every path that an include can be resolved to holds of all paths that a run remembers. -/

def Env.ResolvesTo (env : Env) (Q : String → Path → Prop) : Prop :=
  ∀ spec including path, resolve env spec including = some path → Q spec path

section ResolvesTo

variable {env : Env} {Q : String → Path → Prop} (henv : env.ResolvesTo Q)
include henv

theorem resolvesTo_locate {spec including : String} {run found : RunState} {located : Option Path}
    (h : locate env spec including run = (located, found)) (hrun : run.cache.ResolvesTo Q) :
    found.cache.ResolvesTo Q ∧ ∀ path, located = some path → Q spec path := by
  obtain ⟨hlocated, hresolved⟩ := resolved?_locate env spec including run h
  have hpath : ∀ path, located = some path → Q spec path := by
    intro path hpath
    rw [hpath, eq_comm, Option.or_eq_some_iff] at hlocated
    rcases hlocated with hknown | ⟨-, hnew⟩
    · exact hrun spec path hknown
    · exact henv spec including path hnew
  refine ⟨fun s path hs => ?_, hpath⟩
  rw [hresolved] at hs
  split at hs
  · next heq => exact heq ▸ hpath path hs
  · exact hrun s path hs

theorem Refuses.resolvesTo {site : Site} {spec : String} {run after : RunState} {problem : Problem}
    (h : Refuses env site spec run problem after) (hrun : run.cache.ResolvesTo Q) :
    after.cache.ResolvesTo Q := by
  cases h with
  | tooDeep => exact hrun
  | unresolved _ hlocated | cycle _ hlocated | unreadable _ hlocated | tooLarge _ hlocated =>
    exact (resolvesTo_locate henv hlocated hrun).1

omit henv in
theorem resolvesTo_enter {run : RunState} (hrun : run.cache.ResolvesTo Q) (file text : String) :
    (run.enter file text).cache.ResolvesTo Q := by
  rwa [cache_enter]

theorem Reads.resolvesTo {site : Site} {st last : FileState} {run final : RunState}
    {tokens invoked : List Lexeme} (h : Reads env site st run tokens last final invoked)
    (hrun : run.cache.ResolvesTo Q) : final.cache.ResolvesTo Q := by
  induction h with
  | finish site st run =>
    unfold RunState.close
    split <;> exact hrun
  | @plain site st next last run after final t rest invoked _ item _ hplain happly _ ih =>
    obtain ⟨-, -, hcache, -⟩ := frame_applyEffect env none site.chain site.file site.text st
      (run.noting item.diagnostics) hplain
    rw [happly] at hcache
    exact ih (by rw [hcache]; exact hrun)
  | refused _ _ hrefused _ ih =>
    have hafter := hrefused.resolvesTo henv hrun
    exact ih hafter
  | cached _ _ _ hlocated _ _ _ ih => exact ih (resolvesTo_locate henv hlocated hrun).1
  | @processed site st inner last run found left final t rest within invoked item _ spec offset _
      depth _ path hlocated text _ _ _ ihinner ih =>
    have hreading : (found.reading path).cache.ResolvesTo Q :=
      (resolvesTo_locate henv hlocated hrun).1
    exact ih (ihinner (resolvesTo_enter hreading path.text text))

theorem resolvesTo_document {cache : IncludeCache} (hcache : cache.ResolvesTo Q)
    (file text : String) : (document env cache file text).2.cache.ResolvesTo Q := by
  by_cases hsize : env.options.limits.fileSize < text.utf8ByteSize
  · simp only [document, if_pos hsize]
    exact hcache
  · obtain ⟨last, final, hreads, hdocument⟩ := reads_document env cache hsize
    have hstart : (startState env cache).cache.ResolvesTo Q := hcache
    rw [hdocument]
    exact hreads.resolvesTo henv (resolvesTo_enter hstart file text)

end ResolvesTo

end Preprocess

end HdlIndex
