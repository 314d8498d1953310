import HdlIndex.Proofs.Preprocess.Agreement
import HdlIndex.Proofs.Preprocess.Contributors
import HdlIndex.Proofs.Preprocess.Execution
import Mathlib.Logic.Relation

/-! Files whose contents do not depend on the definitions in force: they have no conditionals and use
no definitions, and neither do the files that they include. Such a file may have been processed under
any table, with other files in progress and other files in the cache. Main statement: to replay it
from the cache gives what processing it gives. -/

namespace HdlIndex

/-! ### Literal items -/

namespace Item

/-- Whether an item is read in the same way under all definitions. -/
def isLiteral (t : Lexeme) (rest : List Lexeme) : Bool :=
  match t.kind with
  | .conditional => false
  | .directive =>
    match FileDirective.ofName t.name with
    | .invocation => false
    | .inclusion => !(skipInline rest).head?.any (·.kind == .directive)
    | _ => true
  | _ => true

theorem inclusion_of_literal {t : Lexeme} {rest : List Lexeme}
    (h : ¬(skipInline rest).head?.any (·.kind == .directive)) (env env' : Expansion.Env) :
    inclusion env t rest = inclusion env' t rest := by
  have hspec : includeSpec env (skipInline rest) = includeSpec env' (skipInline rest) := by
    unfold includeSpec
    cases hskip : skipInline rest with
    | nil => rfl
    | cons s more =>
      have hs : s.kind ≠ .directive := by simpa [hskip] using h
      simp only [if_neg hs]
  simp only [inclusion, hspec]

theorem directive_of_isLiteral {t : Lexeme} {rest : List Lexeme} (hkind : t.kind = .directive)
    (h : isLiteral t rest) (env env' : Expansion.Env) :
    directive env t rest = directive env' t rest := by
  simp only [isLiteral, hkind] at h
  cases hname : FileDirective.ofName t.name with
  | invocation => simp [hname] at h
  | inclusion =>
    simp only [directive, hname] at h ⊢
    exact inclusion_of_literal (by simpa using h) env env'
  | _ => simp only [directive, hname]

theorem read_of_isLiteral {t : Lexeme} {rest : List Lexeme} (h : isLiteral t rest)
    (env env' : Expansion.Env) (conditions conditions' : List Bool) :
    read env conditions t rest = read env' conditions' t rest := by
  cases hkind : t.kind with
  | conditional => simp [isLiteral, hkind] at h
  | directive =>
    simp only [read, hkind]
    exact directive_of_isLiteral hkind h env env'
  | _ => simp only [read, hkind]

end Item

/-- An item that is read without definitions. -/
def Item.readLiteral (t : Lexeme) (rest : List Lexeme) : Item :=
  read ⟨.empty, .empty, {}⟩ [] t rest

/-- The texts of the includes of a file, if all its items are literal. -/
def literalIncludes? : List Lexeme → Option (List String)
  | [] => some []
  | t :: rest =>
    if Item.isLiteral t rest then
      let item := Item.readLiteral t rest
      match item.effect with
      | .inclusion spec _ => (literalIncludes? item.rest).map (spec :: ·)
      | _ => literalIncludes? item.rest
    else none
termination_by tokens => tokens.length
decreasing_by all_goals exact Nat.lt_succ_of_le (Item.length_read_le ..)

theorem literalIncludes?_cons {t : Lexeme} {rest : List Lexeme} {specs : List String}
    (h : literalIncludes? (t :: rest) = some specs) :
    Item.isLiteral t rest ∧
      ((∃ spec offset behind, (Item.readLiteral t rest).effect = .inclusion spec offset ∧
          specs = spec :: behind ∧ literalIncludes? (Item.readLiteral t rest).rest = some behind) ∨
        (∀ spec offset, (Item.readLiteral t rest).effect ≠ .inclusion spec offset) ∧
          literalIncludes? (Item.readLiteral t rest).rest = some specs) := by
  rw [literalIncludes?] at h
  split at h
  · next ht =>
    refine ⟨ht, ?_⟩
    dsimp only at h
    split at h
    · next spec offset heffect =>
      obtain ⟨behind, hbehind, rfl⟩ := Option.map_eq_some_iff.1 h
      exact .inl ⟨spec, offset, behind, heffect, rfl, hbehind⟩
    · next hplain => exact .inr ⟨hplain, h⟩
  · cases h

namespace Preprocess

/-! ### Literal headers -/

/-- A file that can be read, whose items are all literal and whose includes name absolute paths. -/
structure Literal (env : Env) (path : Path) (text : String) (specs : List String) : Prop where
  read : env.provider.read path = .ok text
  fits : ¬env.options.limits.fileSize < text.utf8ByteSize
  includes : literalIncludes? (Lexeme.lex path.text text) = some specs
  absolute : ∀ spec ∈ specs, Path.isAbsolute ⟨spec⟩

theorem Literal.unique {env : Env} {path : Path} {text text' : String} {specs specs' : List String}
    (h : Literal env path text specs) (h' : Literal env path text' specs') :
    text = text' ∧ specs = specs' := by
  have htext : text = text' := Except.ok.inj (h.read.symm.trans h'.read)
  subst htext
  exact ⟨rfl, Option.some.inj (h.includes.symm.trans h'.includes)⟩

/-- A literal file that includes only literal files, none of which is in progress or includes itself
in the end, and for which `depth` levels are enough. -/
def IsHeader (env : Env) : Nat → List Path → Path → Prop
  | depth, chain, path =>
    ¬chain.any (·.same path) ∧ ∃ text specs, Literal env path text specs ∧
      match depth with
      | 0 => specs = []
      | depth + 1 => ∀ spec ∈ specs, ∀ q, resolve env spec path.text = some q →
          IsHeader env depth (path :: chain) q

/-- A literal file includes another. -/
def Includes (env : Env) (path q : Path) : Prop :=
  ∃ text specs, Literal env path text specs ∧ ∃ spec ∈ specs, resolve env spec path.text = some q

/-- A literal file includes another, directly or through others. -/
def Below (env : Env) : Path → Path → Prop := Relation.TransGen (Includes env)

/-- A cache that has resolved texts as some file would. -/
def Answered (env : Env) (cache : IncludeCache) : Prop :=
  ∀ spec path, cache.resolved? spec = some path → ∃ including, resolve env spec including = some path

/-- Every run leaves an answered cache behind if it found one. -/
theorem answered_document (env : Env) {cache : IncludeCache} (h : Answered env cache)
    (file text : String) : Answered env (document env cache file text).2.cache := by
  have hresolve : env.ResolvesTo fun spec path =>
      ∃ including, resolve env spec including = some path :=
    fun _ including _ hpath => ⟨including, hpath⟩
  exact resolvesTo_document hresolve h file text

/-- So the cache of a session is answered, whatever documents it has read. -/
theorem answered_afterAll (options : Options) (provider : Provider)
    (documents : List (String × String)) :
    Answered ⟨provider, options⟩ (Session.afterAll { options, provider } documents).cache :=
  Session.cache_afterAll (P := Answered ⟨provider, options⟩) (s := { options, provider })
    (fun _ file text h => answered_document _ h file text) (fun _ _ h => by cases h) documents

/-- What is kept of a header that was processed at some time, under any definitions: files below it
may have been in the cache, if they got there in the same way. -/
inductive Made (env : Env) : Path → IncludedFile → Prop
  | intro {depth : Nat} {chain : List Path} {path : Path} {text : String} {run : RunState}
    (header : IsHeader env depth chain path) (read : env.provider.read path = .ok text)
    (answered : Answered env run.cache)
    (below : ∀ q file, Below env path q → run.cache.get? q = some file → Made env q file) :
    Made env path (process env depth (path :: chain) path.text text run).1

/-- A cache in which all files below a header are kept as they should be. -/
structure Filled (env : Env) (path : Path) (cache : IncludeCache) : Prop where
  answered : Answered env cache
  below {q : Path} {file : IncludedFile} (hq : Below env path q) (h : cache.get? q = some file) :
    Made env q file

/-! ### Absolute includes -/

section Absolute

variable {env : Env} {spec : String} (h : Path.isAbsolute ⟨spec⟩)
include h

/-- An absolute path is found from everywhere. -/
theorem resolve_of_absolute (file file' : String) : resolve env spec file = resolve env spec file' := by
  simp only [resolve, candidates, if_pos h]

theorem normal_of_resolve {file : String} {path : Path} (hpath : resolve env spec file = some path) :
    ∃ p : Path, path = p.normalize := by
  simp only [resolve, if_pos h] at hpath
  split at hpath
  · next p hp => exact ⟨p, (Option.some.inj hpath).symm⟩
  · cases hpath

theorem locate_of_absolute {run : RunState} (hanswered : Answered env run.cache) (file : String) :
    (locate env spec file run).1 = resolve env spec file ∧
      Answered env (locate env spec file run).2.cache := by
  obtain ⟨hlocated, hfound⟩ := resolved?_locate env spec file run (Prod.eta _).symm
  have hspec : (locate env spec file run).1 = resolve env spec file := by
    rw [hlocated]
    cases hcache : run.cache.resolved? spec with
    | none => rfl
    | some path =>
      obtain ⟨including, hpath⟩ := hanswered spec path hcache
      rw [Option.some_or, ← hpath]
      exact resolve_of_absolute h _ _
  refine ⟨hspec, fun s path hpath => ?_⟩
  rw [hfound] at hpath
  split at hpath
  · next hs => exact ⟨file, hs ▸ hspec.symm.trans hpath⟩
  · exact hanswered s path hpath

end Absolute

theorem Includes.normal {env : Env} {path q : Path} (h : Includes env path q) :
    ∃ p : Path, q = p.normalize := by
  obtain ⟨text, specs, hliteral, spec, hspec, hq⟩ := h
  exact normal_of_resolve (hliteral.absolute spec hspec) hq

theorem Below.normal {env : Env} {path q : Path} (h : Below env path q) :
    ∃ p : Path, q = p.normalize := by
  cases h with
  | single h => exact h.normal
  | tail _ h => exact h.normal

/-! ### Files below a header -/

theorem IsHeader.apart {env : Env} {depth : Nat} {chain : List Path} {path : Path}
    (h : IsHeader env depth chain path) : ¬chain.any (·.same path) := by
  unfold IsHeader at h
  exact h.1

theorem IsHeader.exists_literal {env : Env} {depth : Nat} {chain : List Path} {path : Path}
    (h : IsHeader env depth chain path) : ∃ text specs, Literal env path text specs := by
  unfold IsHeader at h
  obtain ⟨-, text, specs, hliteral, -⟩ := h
  exact ⟨text, specs, hliteral⟩

/-- A header with includes has a level left for them. -/
theorem IsHeader.below {env : Env} {depth : Nat} {chain : List Path} {path : Path}
    (h : IsHeader env depth chain path) {text : String} {specs : List String}
    (hliteral : Literal env path text specs) {spec : String} (hspec : spec ∈ specs) :
    ∃ less, depth = less + 1 ∧ ∀ q, resolve env spec path.text = some q →
      IsHeader env less (path :: chain) q := by
  unfold IsHeader at h
  obtain ⟨-, text', specs', hliteral', hbelow⟩ := h
  obtain ⟨-, rfl⟩ := hliteral.unique hliteral'
  cases depth with
  | zero =>
    rw [hbelow] at hspec
    cases hspec
  | succ less => exact ⟨less, rfl, hbelow spec hspec⟩

namespace Filled

theorem empty (env : Env) (path : Path) : Filled env path .empty where
  answered _ _ h := by cases h
  below _ h := by cases h

variable {env : Env} {root path : Path} {cache : IncludeCache}

/-- What holds below a file holds below those that it includes. -/
theorem narrow (h : Filled env root cache) (hroot : Relation.ReflTransGen (Includes env) root path) :
    Filled env path cache where
  answered := h.answered
  below hq := h.below (Relation.TransGen.trans_right hroot hq)

theorem insert (h : Filled env root cache) (hpath : Below env root path) {file : IncludedFile}
    (hfile : Made env path file) : Filled env root (cache.insert path file) where
  answered := h.answered
  below {q e} hq he := by
    rw [IncludeCache.get?_insert] at he
    split at he
    · next hsame =>
      obtain ⟨p, rfl⟩ := hpath.normal
      obtain ⟨p', rfl⟩ := hq.normal
      cases he
      exact Path.eq_of_same_normalize hsame ▸ hfile
    · exact h.below hq he

theorem locate {run : RunState} (h : Filled env root run.cache) {spec : String}
    (hspec : Path.isAbsolute ⟨spec⟩) (file : String) :
    Filled env root (Preprocess.locate env spec file run).2.cache where
  answered := (locate_of_absolute hspec h.answered file).2
  below hq he := h.below hq ((cache_locate_get? env spec file run _).symm.trans he)

end Filled

/-- Processing keeps the cache filled below a header. -/
def KeepsFilled (env : Env) (root : Path) (depth : Nat) : Prop :=
  ∀ {chain : List Path} {path : Path} {text : String} {run : RunState},
    IsHeader env depth chain path → Relation.ReflTransGen (Includes env) root path →
    env.provider.read path = .ok text → Filled env root run.cache →
    Filled env root (process env depth (path :: chain) path.text text run).2.cache

/-- An include of a header opens a file that is kept as it should be, from the cache or not. -/
theorem openInclude_header {env : Env} {root q : Path} {depth : Nat} {chain : List Path}
    (hkeeps : KeepsFilled env root depth) (hq : Below env root q) (hheader : IsHeader env depth chain q)
    {run : RunState} (hfilled : Filled env root run.cache) :
    ∃ file after, openInclude env (process env depth) chain q run = (.ok file, after) ∧
      Made env q file ∧ Filled env root after.cache := by
  cases hcache : run.cache.get? q with
  | some file =>
    exact ⟨file, _, openInclude_of_cached env _ hheader.apart hcache, hfilled.below hq hcache, hfilled⟩
  | none =>
    obtain ⟨text, specs, hliteral⟩ := hheader.exists_literal
    have hunread : unread env chain q run = some text := by
      simp [unread, hheader.apart, hcache, hliteral.read, hliteral.fits]
    have hroot := hq.to_reflTransGen
    have hreading : Filled env root (run.reading q).cache := hfilled
    have hnarrow := hfilled.narrow hroot
    have hmade : Made env q (process env depth (q :: chain) q.text text (run.reading q)).1 :=
      .intro hheader hliteral.read hnarrow.answered fun r file hr hfile => hnarrow.below hr hfile
    exact ⟨_, _, openInclude_of_unread env _ hunread, hmade,
      (hkeeps hheader hroot hliteral.read hreading).insert hq hmade⟩

/-- An include of a header fails if there is no such file, and otherwise gives the file as it should
be kept. -/
def Finds (env : Env) (path : Path) (spec : String) (result : Except Problem (Path × IncludedFile)) :
    Prop :=
  match resolve env spec path.text with
  | none => ∃ problem, result = .error problem
  | some q => ∃ file, result = .ok (q, file) ∧ Made env q file

theorem findInclude_header {env : Env} {root path : Path} {depth : Nat} {chain : List Path}
    (hkeeps : ∀ less < depth, KeepsFilled env root less) (hheader : IsHeader env depth chain path)
    (hroot : Relation.ReflTransGen (Includes env) root path) {text : String} {specs : List String}
    (hliteral : Literal env path text specs) {spec : String} (hspec : spec ∈ specs)
    {run : RunState} (hfilled : Filled env root run.cache) :
    Filled env root
        (findInclude env (levels env depth) (path :: chain) path.text spec run).2.cache ∧
      Finds env path spec
        (findInclude env (levels env depth) (path :: chain) path.text spec run).1 := by
  obtain ⟨less, rfl, hbelow⟩ := hheader.below hliteral hspec
  have habsolute := hliteral.absolute spec hspec
  have hlocated := (locate_of_absolute habsolute hfilled.answered path.text).1
  have hfound := hfilled.locate habsolute path.text
  rcases hlocate : locate env spec path.text run with ⟨_ | q, found⟩
  · rw [hlocate] at hlocated hfound
    rw [levels, Finds, ← hlocated, findInclude_of_unresolved env _ hlocate]
    exact ⟨hfound, _, rfl⟩
  · rw [hlocate] at hlocated hfound
    have hq : Below env root q :=
      Relation.TransGen.tail' hroot ⟨text, specs, hliteral, spec, hspec, hlocated.symm⟩
    obtain ⟨file, after, hopen, hmade, hafter⟩ :=
      openInclude_header (hkeeps less less.lt_succ_self) hq (hbelow q hlocated.symm) hfound
    rw [levels, Finds, ← hlocated, findInclude_of_located env _ hlocate, hopen]
    exact ⟨hafter, file, rfl, hmade⟩

/-! ### Literal tokens -/

/-- A state with more reports. -/
def RunState.reportAll (run : RunState) (diagnostics : List Diagnostic) : RunState :=
  { run with diagnostics := run.diagnostics ++ diagnostics }

section Scan

variable {env : Env} {nested nested' : Option Process} {chain chain' : List Path} {file : String}
  {inv inv' : IncludeCache → Prop}

theorem scan_literal {t : Lexeme} {rest : List Lexeme} (ht : Item.isLiteral t rest) (text : String)
    (st : FileState) (run : RunState) :
    scan env nested chain file text st run (t :: rest) =
      let item := Item.readLiteral t rest
      let after := applyEffect env nested chain file text st (run.reportAll item.diagnostics)
        item.effect
      scan env nested chain file text after.1 after.2 item.rest := by
  rw [scan, Item.read_of_isLiteral ht _ ⟨.empty, .empty, {}⟩ _ []]
  rfl

theorem cache_inclusion (text : String) (st : FileState) (run : RunState) (spec : String)
    (offset : Nat) :
    (applyEffect env nested chain file text st run (.inclusion spec offset)).2.cache =
      (findInclude env nested chain file spec run).2.cache := by
  simp only [applyEffect]
  split
  · next h =>
    rw [h]
    rfl
  · next h => rw [h]

/-- What the includes of literal tokens preserve of the cache, the tokens preserve. -/
theorem cache_scan (text : String) (tokens : List Lexeme) {specs : List String}
    (hliteral : literalIncludes? tokens = some specs)
    (h : ∀ spec ∈ specs, ∀ run : RunState, inv run.cache →
      inv (findInclude env nested chain file spec run).2.cache)
    (st : FileState) (run : RunState) (hrun : inv run.cache) :
    inv (scan env nested chain file text st run tokens).2.cache := by
  match tokens with
  | [] =>
    simp only [scan]
    split <;> exact hrun
  | t :: rest =>
    obtain ⟨ht, hitem⟩ := literalIncludes?_cons hliteral
    have hlength : (Item.readLiteral t rest).rest.length ≤ rest.length := Item.length_read_le ..
    rw [scan_literal ht]
    dsimp only
    rcases hitem with ⟨spec, offset, behind, heffect, rfl, hbehind⟩ | ⟨hplain, hbehind⟩
    · refine cache_scan text _ hbehind (fun s hs => h s (List.mem_cons_of_mem _ hs)) _ _ ?_
      rw [heffect, cache_inclusion]
      exact h spec List.mem_cons_self _ hrun
    · refine cache_scan text _ hbehind h _ _ ?_
      rw [(frame_applyEffect env nested chain file text st _ hplain).2.2.1]
      exact hrun
termination_by tokens.length
decreasing_by all_goals exact Nat.lt_succ_of_le hlength

/-- Two includes that turn out alike: both fail, or both give the same file with contents that agree. -/
def Alike (a b : Except Problem (Path × IncludedFile)) : Prop :=
  (∃ p q, a = .error p ∧ b = .error q) ∨
    ∃ path e f, a = .ok (path, e) ∧ b = .ok (path, f) ∧ IncludedFile.Agrees e f

theorem agrees_inclusion {spec : String} {run run' : RunState}
    (h : Alike (findInclude env nested chain file spec run).1
      (findInclude env nested' chain' file spec run').1) {st st' : FileState}
    (hst : st.Agrees st') (text : String) (offset : Nat) :
    (applyEffect env nested chain file text st run (.inclusion spec offset)).1.Agrees
      (applyEffect env nested' chain' file text st' run' (.inclusion spec offset)).1 := by
  simp only [applyEffect]
  rcases hfound : findInclude env nested chain file spec run with ⟨result, found⟩
  rcases hfound' : findInclude env nested' chain' file spec run' with ⟨result', found'⟩
  rw [hfound, hfound'] at h
  rcases h with ⟨p, q, rfl, rfl⟩ | ⟨path, e, f, rfl, rfl, hagrees⟩
  · exact hst
  · exact hst.splice path hagrees

/-- On literal tokens two runs differ in nothing but their includes. -/
theorem agrees_scan (text : String) (tokens : List Lexeme) {specs : List String}
    (hliteral : literalIncludes? tokens = some specs)
    (hinv : ∀ spec ∈ specs, ∀ run : RunState, inv run.cache →
      inv (findInclude env nested chain file spec run).2.cache)
    (hinv' : ∀ spec ∈ specs, ∀ run : RunState, inv' run.cache →
      inv' (findInclude env nested' chain' file spec run).2.cache)
    (h : ∀ spec ∈ specs, ∀ run run' : RunState, inv run.cache → inv' run'.cache →
      Alike (findInclude env nested chain file spec run).1
        (findInclude env nested' chain' file spec run').1)
    {st st' : FileState} (hst : st.Agrees st') (run run' : RunState) (hrun : inv run.cache)
    (hrun' : inv' run'.cache) :
    (scan env nested chain file text st run tokens).1.Agrees
      (scan env nested' chain' file text st' run' tokens).1 := by
  match tokens with
  | [] =>
    simp only [scan]
    split <;> split <;> exact hst
  | t :: rest =>
    obtain ⟨ht, hitem⟩ := literalIncludes?_cons hliteral
    have hlength : (Item.readLiteral t rest).rest.length ≤ rest.length := Item.length_read_le ..
    rw [scan_literal ht, scan_literal ht]
    dsimp only
    rcases hitem with ⟨spec, offset, behind, heffect, rfl, hbehind⟩ | ⟨hplain, hbehind⟩
    · rw [heffect]
      refine agrees_scan text _ hbehind (fun s hs => hinv s (List.mem_cons_of_mem _ hs))
        (fun s hs => hinv' s (List.mem_cons_of_mem _ hs))
        (fun s hs => h s (List.mem_cons_of_mem _ hs)) (agrees_inclusion ?_ hst text offset) _ _ ?_ ?_
      · exact h spec List.mem_cons_self _ _ hrun hrun'
      · rw [cache_inclusion]
        exact hinv spec List.mem_cons_self _ hrun
      · rw [cache_inclusion]
        exact hinv' spec List.mem_cons_self _ hrun'
    · refine agrees_scan text _ hbehind hinv hinv' h
        (hst.applyEffect env _ _ _ _ file text _ _ hplain) _ _ ?_ ?_
      · rw [(frame_applyEffect env nested chain file text st _ hplain).2.2.1]
        exact hrun
      · rw [(frame_applyEffect env nested' chain' file text st' _ hplain).2.2.1]
        exact hrun'
termination_by tokens.length
decreasing_by all_goals exact Nat.lt_succ_of_le hlength

end Scan

/-! ### Headers -/

theorem keepsFilled (env : Env) (root : Path) (depth : Nat) : KeepsFilled env root depth := by
  induction depth using Nat.strongRecOn with
  | ind depth ih =>
    intro chain path text run hheader hroot hread hfilled
    obtain ⟨text', specs, hliteral⟩ := hheader.exists_literal
    cases Except.ok.inj (hread.symm.trans hliteral.read)
    rw [process_eq, processFile_eq]
    refine cache_scan text _ hliteral.includes (fun spec hspec run hrun => ?_) _ _ ?_
    · exact (findInclude_header ih hheader hroot hliteral hspec hrun).1
    · rw [cache_enter]
      exact hfilled

/-- What was found of one include in two runs agrees if all that is kept of the file agrees. -/
theorem Finds.alike {env : Env} {path : Path} {spec : String}
    {a b : Except Problem (Path × IncludedFile)} (ha : Finds env path spec a)
    (hb : Finds env path spec b)
    (h : ∀ q, resolve env spec path.text = some q → ∀ e f, Made env q e → Made env q f →
      IncludedFile.Agrees e f) : Alike a b := by
  unfold Finds at ha hb
  split at ha
  · next hnone =>
    rw [hnone] at hb
    obtain ⟨p, rfl⟩ := ha
    obtain ⟨p', rfl⟩ := hb
    exact .inl ⟨p, p', rfl, rfl⟩
  · next q hq =>
    rw [hq] at hb
    obtain ⟨e, rfl, he⟩ := ha
    obtain ⟨f, rfl, hf⟩ := hb
    exact .inr ⟨q, e, f, rfl, rfl, h q hq e f he hf⟩

/-- All that is ever kept of a header agrees, whatever definitions were in force, which files were in
progress and which were in the cache. The induction is on how deep its includes nest. -/
theorem agrees_of_made {env : Env} {height : Nat} {around : List Path} {path : Path}
    (hheight : IsHeader env height around path) {e f : IncludedFile} (he : Made env path e)
    (hf : Made env path f) : e.Agrees f := by
  induction height using Nat.strongRecOn generalizing around path e f with
  | ind height ih =>
    obtain ⟨text, specs, hliteral⟩ := hheight.exists_literal
    obtain @⟨depth, chain, _, texte, run, header, hread, answered, below⟩ := he
    obtain @⟨depth', chain', _, textf, run', header', hread', answered', below'⟩ := hf
    cases Except.ok.inj (hread.symm.trans hliteral.read)
    cases Except.ok.inj (hread'.symm.trans hliteral.read)
    have hfinds {depth : Nat} {chain : List Path} (header : IsHeader env depth chain path)
        {spec : String} (hspec : spec ∈ specs) {run : RunState} (hrun : Filled env path run.cache) :=
      findInclude_header (fun less _ => keepsFilled env path less) header .refl hliteral hspec hrun
    rw [process_eq, process_eq, processFile_eq, processFile_eq]
    refine (agrees_scan text _ hliteral.includes
      (fun spec hspec run hrun => (hfinds header hspec hrun).1)
      (fun spec hspec run hrun => (hfinds header' hspec hrun).1)
      (fun spec hspec run run' hrun hrun' => ?_) (.refl {}) _ _ ?_ ?_).leave path.text text
    · obtain ⟨less, rfl, hbelow⟩ := hheight.below hliteral hspec
      refine (hfinds header hspec hrun).2.alike (hfinds header' hspec hrun').2 ?_
      intro q hq e f he hf
      exact ih less less.lt_succ_self (hbelow q hq) he hf
    · rw [cache_enter]
      exact ⟨answered, fun hq hfile => below _ _ hq hfile⟩
    · rw [cache_enter]
      exact ⟨answered', fun hq hfile => below' _ _ hq hfile⟩

/-- A header is replayed as it would be processed. Let `cached` be what is kept of it, from a time
with any definitions, files in progress and nested headers in the cache. Then a run that finds it in
the cache writes the same tokens with the same origins, notes the same includes and ends with the
same definitions in the same order as a run with the same definitions that has to process it, some of
the files below it being in the cache or not. -/
theorem replay_eq_process {env : Env} {path : Path} {cached : IncludedFile}
    (hcached : Made env path cached) {depth : Nat} {chain : List Path}
    (hheader : IsHeader env depth chain path) {hit miss : RunState}
    (hmacros : hit.macros = miss.macros) (hhit : hit.cache.get? path = some cached)
    (hmiss : miss.cache.get? path = none) (hfilled : Filled env path miss.cache) (st : FileState) :
    ∃ file replayed processed,
      openInclude env (process env depth) chain path hit = (.ok cached, replayed) ∧
      openInclude env (process env depth) chain path miss = (.ok file, processed) ∧
      (st.splice path cached).out = (st.splice path file).out ∧
      (st.splice path cached).includes = (st.splice path file).includes ∧
      replayed.macros = processed.macros := by
  obtain ⟨text, specs, hliteral⟩ := hheader.exists_literal
  have hunread : unread env chain path miss = some text := by
    simp [unread, hheader.apart, hmiss, hliteral.read, hliteral.fits]
  have hfile : Made env path
      (process env depth (path :: chain) path.text text (miss.reading path)).1 :=
    .intro hheader hliteral.read hfilled.answered fun q file hq h => hfilled.below hq h
  have hagrees := agrees_of_made hheader hcached hfile
  have hsplice := (FileState.Agrees.refl st).splice path hagrees
  refine ⟨_, _, _, openInclude_of_cached env _ hheader.apart hhit,
    openInclude_of_unread env _ hunread, hsplice.out, hsplice.includes, ?_⟩
  calc hit.macros.replay cached.log
    _ = miss.macros.replay cached.log := by rw [hmacros]
    _ = miss.macros.replay
          (process env depth (path :: chain) path.text text (miss.reading path)).1.log :=
        hagrees.log miss.macros
    _ = (process env depth (path :: chain) path.text text (miss.reading path)).2.macros :=
        keepsLog_process env depth (path :: chain) path.text text (miss.reading path)

/-! ### A header with a header in it -/

/-- A header that includes another. -/
def twoHeaders : Env where
  provider := (Files.ofList [(⟨"/h"⟩, "`define A x\n`include </g>"), (⟨"/g"⟩, "`undef B\ny")]).provider
  options := {}

set_option maxRecDepth 100000 in
theorem literalIncludes_twoHeaders :
    literalIncludes? (Lexeme.lex "/h" "`define A x\n`include </g>") = some ["/g"] ∧
      literalIncludes? (Lexeme.lex "/g" "`undef B\ny") = some [] := by
  decide +kernel

theorem literal_outer : Literal twoHeaders ⟨"/h"⟩ "`define A x\n`include </g>" ["/g"] where
  read := by rfl
  fits := by decide
  includes := literalIncludes_twoHeaders.1
  absolute := by decide

theorem literal_inner : Literal twoHeaders ⟨"/g"⟩ "`undef B\ny" [] where
  read := by rfl
  fits := by decide
  includes := literalIncludes_twoHeaders.2
  absolute := by simp

theorem resolve_inner : resolve twoHeaders "/g" "/h" = some ⟨"/g"⟩ := by decide

theorem isHeader_inner {chain : List Path} (h : ¬chain.any (·.same ⟨"/g"⟩)) :
    IsHeader twoHeaders 0 chain ⟨"/g"⟩ := by
  unfold IsHeader
  exact ⟨h, _, _, literal_inner, rfl⟩

theorem isHeader_outer : IsHeader twoHeaders 1 [] ⟨"/h"⟩ := by
  unfold IsHeader
  refine ⟨by decide, _, _, literal_outer, ?_⟩
  simp only [List.mem_singleton, forall_eq, resolve_inner, Option.some.injEq, forall_eq']
  exact isHeader_inner (by decide)

/-- A state with one definition and the given file in the cache. -/
def stateWith (name : String) (path : Path) (file : IncludedFile) : RunState where
  cache := IncludeCache.empty.insert path file
  macros := ⟨[.user name []]⟩

/-- What is kept of a file that is processed on its own. -/
def processedAlone (env : Env) (depth : Nat) (path : Path) (text : String) (macros : MacroTable) :
    IncludedFile :=
  (process env depth [path] path.text text { cache := .empty, macros }).1

theorem made_processedAlone {env : Env} {depth : Nat} {path : Path}
    (hheader : IsHeader env depth [] path) {text : String} (hread : env.provider.read path = .ok text)
    (macros : MacroTable) : Made env path (processedAlone env depth path text macros) :=
  .intro hheader hread (Filled.empty env path).answered (by simp)

/-- The outer header, processed with `B` defined. -/
def outerUnderB : IncludedFile :=
  processedAlone twoHeaders 1 ⟨"/h"⟩ "`define A x\n`include </g>" ⟨[.user "B" []]⟩

/-- The inner header, processed without definitions. -/
def innerUnderNone : IncludedFile := processedAlone twoHeaders 0 ⟨"/g"⟩ "`undef B\ny" .empty

/-- The outer header is replayed where `A` is defined, and compared with processing it there when the
inner one is in the cache. -/
theorem replay_eq_process_nested :
    ∃ file replayed processed,
      openInclude twoHeaders (process twoHeaders 1) [] ⟨"/h"⟩ (stateWith "A" ⟨"/h"⟩ outerUnderB) =
        (.ok outerUnderB, replayed) ∧
      openInclude twoHeaders (process twoHeaders 1) [] ⟨"/h"⟩ (stateWith "A" ⟨"/g"⟩ innerUnderNone) =
        (.ok file, processed) ∧
      (FileState.splice {} ⟨"/h"⟩ outerUnderB).out = (FileState.splice {} ⟨"/h"⟩ file).out ∧
      (FileState.splice {} ⟨"/h"⟩ outerUnderB).includes = (FileState.splice {} ⟨"/h"⟩ file).includes ∧
      replayed.macros = processed.macros := by
  have houter : Made twoHeaders ⟨"/h"⟩ outerUnderB :=
    made_processedAlone isHeader_outer literal_outer.read _
  have hinner : Made twoHeaders ⟨"/g"⟩ innerUnderNone :=
    made_processedAlone (isHeader_inner (by decide)) literal_inner.read _
  have hbelow : Below twoHeaders ⟨"/h"⟩ ⟨"/g"⟩ :=
    .single ⟨_, _, literal_outer, "/g", by simp, resolve_inner⟩
  have hmacros : (stateWith "A" ⟨"/h"⟩ outerUnderB).macros =
      (stateWith "A" ⟨"/g"⟩ innerUnderNone).macros := by
    simp only [stateWith]
  have hhit : (stateWith "A" ⟨"/h"⟩ outerUnderB).cache.get? ⟨"/h"⟩ = some outerUnderB := by
    rw [stateWith, IncludeCache.get?_insert, if_pos (Path.same_refl _)]
  have hmiss : (stateWith "A" ⟨"/g"⟩ innerUnderNone).cache.get? ⟨"/h"⟩ = none := by
    have hother : ¬Path.same ⟨"/g"⟩ ⟨"/h"⟩ := by decide
    rw [stateWith, IncludeCache.get?_insert, if_neg hother, IncludeCache.get?_empty]
  exact replay_eq_process houter isHeader_outer hmacros hhit hmiss
    ((Filled.empty twoHeaders ⟨"/h"⟩).insert hbelow hinner) {}

end Preprocess

end HdlIndex
