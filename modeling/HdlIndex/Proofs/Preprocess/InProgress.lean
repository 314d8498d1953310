import HdlIndex.Proofs.Preprocess.Contributors
import HdlIndex.Proofs.Preprocess.Execution
import Mathlib.Data.List.Perm.Subperm

/-! Files in progress. `process` is given the files around a file and a number of levels; here the same
work is done with one set of files in progress, into which a file is put before it is processed and
from which it is taken afterwards, with a count of the levels, and with fuel for as many levels as the
caller likes. Main statement: with fuel for as many levels as there are files, and never more than the
limit, the work is done to its end with the same result; no file is ever entered twice on one chain of
calls, the set holds exactly the files of the chain, and it is put back behind every include. -/

namespace HdlIndex

namespace Preprocess

/-! ### Marks -/

/-- What is noted while files are processed. -/
inductive Note where
  /-- A file is entered: the calls under way, the innermost first, and the files in progress. -/
  | entered (calls marks : List Path)
  /-- An include is behind: the calls under way, and the files in progress in front of it and behind. -/
  | passed (calls before after : List Path)

/-- A run with the files in progress. -/
structure Marked where
  run : RunState
  marks : List Path := []
  notes : List Note := []

namespace Marked

def mark (m : Marked) (path : Path) : Marked :=
  { m with marks := if m.marks.any (·.same path) then m.marks else path :: m.marks }

def unmark (m : Marked) (path : Path) : Marked :=
  { m with marks := m.marks.filter (!·.same path) }

def note (m : Marked) (note : Note) : Marked := { m with notes := m.notes ++ [note] }

end Marked

/-- Processes a file, given the calls under way and their number below the document, the name of the
file and its text. Without fuel there is no result. -/
abbrev MarkedProcess := List Path → Nat → String → String → Marked → Option (IncludedFile × Marked)

section Marked

variable (env : Env) (nested : MarkedProcess) (calls : List Path) (depth : Nat)

/-- The file that an include names, with its contents. -/
def markedInclude (file spec : String) (m : Marked) :
    Option (Except Problem (Path × IncludedFile) × Marked) :=
  let limit := env.options.limits.includeDepth
  if limit ≤ depth then some (.error (.includeDepth limit spec), m)
  else
    match locate env spec file m.run with
    | (none, run) => some (.error (.unresolvedInclude spec), { m with run })
    | (some path, run) =>
      if m.marks.any (·.same path) then some (.error (.includeCycle path.text), { m with run })
      else
        match run.cache.get? path with
        | some file => some (.ok (path, file), { m with run := run.adopt file })
        | none =>
          let m := { m with run := run.reading path }
          match env.provider.read path with
          | .error reason => some (.error (.unreadable path.text reason), m)
          | .ok text =>
            let limit := env.options.limits.fileSize
            if limit < text.utf8ByteSize then
              some (.error (.includeTooLarge path.text text.utf8ByteSize limit), m)
            else
              (nested (path :: calls) (depth + 1) path.text text (m.mark path)).map fun (file, m) =>
                let m := m.unmark path
                (.ok (path, file), { m with run := m.run.store path file })

def markedScan (file text : String) (st : FileState) (m : Marked) :
    List Lexeme → Option (FileState × Marked)
  | [] => some (st, { m with run := m.run.close file st.conditions })
  | t :: rest =>
    let item := Item.read (m.run.expansionEnv env.options.limits) st.conditions t rest
    let m := { m with run := m.run.noting item.diagnostics }
    match item.effect with
    | .inclusion spec offset =>
      (markedInclude env nested calls depth file spec m).bind fun (result, after) =>
        let after := after.note (.passed calls m.marks after.marks)
        match result with
        | .error problem =>
          let run := after.run.report (.located problem file offset)
          markedScan file text st { after with run } item.rest
        | .ok (path, found) => markedScan file text (st.splice path found) after item.rest
    | effect =>
      let (st, run) := applyEffect env none calls file text st m.run effect
      markedScan file text st { m with run } item.rest
termination_by tokens => tokens.length
decreasing_by all_goals exact Nat.lt_succ_of_le (Item.length_read_le ..)

def markedFile : MarkedProcess := fun calls depth file text m =>
  let m := m.note (.entered calls m.marks)
  let m := { m with run := m.run.enter file text }
  (markedScan env nested calls depth file text {} m (Lexeme.lex file text)).map fun (st, m) =>
    (st.contents file text, m)

end Marked

/-- Processes a file with fuel for this many levels of includes. -/
def markedProcess (env : Env) : Nat → MarkedProcess
  | 0 => markedFile env fun _ _ _ _ _ => none
  | fuel + 1 => markedFile env (markedProcess env fuel)

/-- Processes a document with fuel for this many levels of includes. -/
def markedDocument (env : Env) (fuel : Nat) (cache : IncludeCache) (file text : String) :
    Option (Preprocessed × Marked) :=
  let run := startState env cache
  let limit := env.options.limits.fileSize
  if limit < text.utf8ByteSize then
    let run := run.report (.inFile (.documentTooLarge text.utf8ByteSize limit) file)
    some ({ file, macros := run.macros, diagnostics := run.diagnostics }, { run })
  else
    let path := Path.normalize ⟨file⟩
    (markedProcess env fuel [path] 0 file text (Marked.mark { run } path)).map fun (found, m) =>
      ({ file
         symbols := found.symbols
         stream := found.stream
         includes := found.includes
         macros := m.run.macros
         sources := m.run.sources
         diagnostics := m.run.diagnostics }, m.unmark path)

theorem resolvesTo_isNormal {env : Env} {files : List Path} (hfiles : env.provider.Holds files) :
    env.ResolvesTo fun _ => Path.IsNormal := by
  intro spec including path h
  unfold resolve at h
  split at h
  · cases h
    exact Path.isNormal_normalize _
  · split at h
    · cases h
    · exact hfiles.listed (List.mem_of_mem_head? h)

/-! ### Chains of calls -/

/-- Calls under way, the innermost first and the document last: no path is there twice, and all but
the last are files of the provider. -/
structure Stacked (files chain : List Path) : Prop where
  nonempty : chain ≠ []
  nodup : chain.Nodup
  normal : ∀ path ∈ chain, path.IsNormal
  held : ∀ path ∈ chain.dropLast, path ∈ files

namespace Stacked

variable {files chain : List Path}

theorem singleton (files : List Path) (path : Path) : Stacked files [path.normalize] :=
  ⟨by simp, by simp, by simp, by simp⟩

theorem length_le (h : Stacked files chain) : chain.length ≤ files.length + 1 := by
  have hnodup : chain.dropLast.Nodup := h.nodup.sublist (List.dropLast_sublist chain)
  have hlength := (hnodup.subperm h.held).length_le
  rw [List.length_dropLast] at hlength
  omega

theorem cons (h : Stacked files chain) {path : Path} (hchain : ¬chain.any (·.same path))
    (hnormal : path.IsNormal) (hfile : path ∈ files) : Stacked files (path :: chain) where
  nonempty := List.cons_ne_nil path chain
  nodup := List.nodup_cons.2
    ⟨fun hmem => hchain (List.any_eq_true.2 ⟨path, hmem, path.same_refl⟩), h.nodup⟩
  normal := List.forall_mem_cons.2 ⟨hnormal, h.normal⟩
  held := by
    rw [List.dropLast_cons_of_ne_nil h.nonempty]
    exact List.forall_mem_cons.2 ⟨hfile, h.held⟩

theorem nodup_normalize (h : Stacked files chain) : (chain.map Path.normalize).Nodup := by
  rw [List.map_congr_left h.normal, List.map_id']
  exact h.nodup

end Stacked

/-! ### The same work -/

/-- What a note says is in order: files are entered on a chain of calls that has no path twice, with
exactly this chain in progress, at most `limit` levels below the document, and an include leaves the
files in progress as they were. -/
def Note.Orderly (limit : Nat) : Note → Prop
  | .entered calls marks =>
    marks = calls ∧ (calls.map Path.normalize).Nodup ∧ calls.length ≤ limit + 1
  | .passed calls before after => before = calls ∧ after = before

/-- A file at this place is `depth` levels below the document. -/
def Site.At (env : Env) (site : Site) (depth : Nat) : Prop :=
  site.chain.length = depth + 1 ∧ depth + site.depth = env.options.limits.includeDepth

/-- An include is refused in the same way, and leaves the files in progress as they were. -/
theorem markedInclude_of_refused {env : Env} {site : Site} {depth : Nat}
    (hlevels : depth + site.depth = env.options.limits.includeDepth) {spec : String}
    {run after : RunState} {problem : Problem} (h : Refuses env site spec run problem after)
    (nested : MarkedProcess) (calls : List Path) (notes : List Note) :
    markedInclude env nested calls depth site.file spec ⟨run, site.chain, notes⟩ =
      some (.error problem, ⟨after, site.chain, notes⟩) := by
  have hbelow {levels : Nat} (h : site.depth = levels + 1) :
      ¬env.options.limits.includeDepth ≤ depth := by omega
  cases h with
  | tooDeep hdepth =>
    have hlimit : env.options.limits.includeDepth ≤ depth := by omega
    simp only [markedInclude, if_pos hlimit]
  | unresolved hdepth hlocated => simp only [markedInclude, if_neg (hbelow hdepth), hlocated]
  | cycle hdepth hlocated hchain =>
    simp only [markedInclude, if_neg (hbelow hdepth), hlocated, if_pos hchain]
  | unreadable hdepth hlocated hchain hcache hread =>
    simp only [markedInclude, if_neg (hbelow hdepth), hlocated, if_neg hchain, hcache, hread]
  | tooLarge hdepth hlocated hchain hcache hread hsize =>
    simp only [markedInclude, if_neg (hbelow hdepth), hlocated, if_neg hchain, hcache, hread,
      if_pos hsize]

section Include

variable {env : Env} {site : Site} {depth : Nat} (hsite : site.At env depth) {spec : String}
  {run found : RunState} {path : Path} (nested : MarkedProcess) (notes : List Note)
include hsite

theorem markedInclude_of_cached {levels : Nat} (hdepth : site.depth = levels + 1)
    (hlocated : locate env spec site.file run = (some path, found))
    (hchain : ¬site.chain.any (·.same path)) {file : IncludedFile}
    (hfile : found.cache.get? path = some file) :
    markedInclude env nested site.chain depth site.file spec ⟨run, site.chain, notes⟩ =
      some (.ok (path, file), ⟨found.adopt file, site.chain, notes⟩) := by
  have hbelow : ¬env.options.limits.includeDepth ≤ depth := by
    have := hsite.2
    omega
  simp only [markedInclude, if_neg hbelow, hlocated, if_neg hchain, hfile]

/-- A file is marked while it is processed, and its mark is taken away afterwards. -/
theorem markedInclude_of_processed {levels : Nat} (hdepth : site.depth = levels + 1)
    (hlocated : locate env spec site.file run = (some path, found)) {text : String}
    (htext : unread env site.chain path found = some text) {file : IncludedFile} {left : RunState}
    {more : List Note}
    (hnested : nested (path :: site.chain) (depth + 1) path.text text
      ⟨found.reading path, path :: site.chain, notes⟩ =
        some (file, ⟨left, path :: site.chain, notes ++ more⟩)) :
    markedInclude env nested site.chain depth site.file spec ⟨run, site.chain, notes⟩ =
      some (.ok (path, file), ⟨left.store path file, site.chain, notes ++ more⟩) := by
  obtain ⟨hchain, hcache, hread, hsize⟩ := unread_eq_some env htext
  have hbelow : ¬env.options.limits.includeDepth ≤ depth := by
    have := hsite.2
    omega
  have hmark : Marked.mark ⟨found.reading path, site.chain, notes⟩ path =
      ⟨found.reading path, path :: site.chain, notes⟩ := by
    simp only [Marked.mark, if_neg hchain]
  have hunmark : Marked.unmark ⟨left, path :: site.chain, notes ++ more⟩ path =
      ⟨left, site.chain, notes ++ more⟩ := by
    have hothers : ∀ p ∈ site.chain, (!p.same path) = true := by
      intro p hp
      rw [Bool.not_eq_true']
      exact Bool.eq_false_iff.2 fun hsame => hchain (List.any_eq_true.2 ⟨p, hp, hsame⟩)
    rw [Marked.unmark, List.filter_cons_of_neg (by simp), List.filter_eq_self.2 hothers]
  simp only [markedInclude, if_neg hbelow, hlocated, if_neg hchain, hcache, hread, if_neg hsize,
    hmark, hnested, Option.map_some, hunmark]

end Include

/-- With this fuel the files that a file includes can be processed. -/
def markedBelow (env : Env) : Nat → MarkedProcess
  | 0 => fun _ _ _ _ _ => none
  | fuel + 1 => markedProcess env fuel

theorem markedProcess_eq (env : Env) (fuel : Nat) :
    markedProcess env fuel = markedFile env (markedBelow env fuel) := by
  cases fuel <;> rfl

theorem markedProcess_of_scan {env : Env} {fuel depth : Nat} {chain : List Path} {file text : String}
    {run final : RunState} {notes behind : List Note} {last : FileState}
    (h : markedScan env (markedBelow env fuel) chain depth file text {}
      ⟨run.enter file text, chain, notes ++ [.entered chain chain]⟩ (Lexeme.lex file text) =
        some (last, ⟨final, chain, behind⟩)) :
    markedProcess env fuel chain depth file text ⟨run, chain, notes⟩ =
      some (last.contents file text, ⟨final, chain, behind⟩) := by
  simp only [markedProcess_eq, markedFile, Marked.note, h, Option.map_some]

/-- A file is entered in order on a chain of calls. -/
theorem orderly_entered {env : Env} {files : List Path} {site : Site} (h : Stacked files site.chain)
    {depth : Nat} (hsite : site.At env depth) :
    Note.Orderly (min env.options.limits.includeDepth files.length)
      (.entered site.chain site.chain) := by
  have hlength := h.length_le
  obtain ⟨hchain, hlevels⟩ := hsite
  exact ⟨rfl, h.nodup_normalize, by omega⟩

/-- The marks that are set and taken away are those of the chain of calls, and fuel for the levels that
are left is enough: a file that is entered is one of the provider's that is not yet on the chain. -/
theorem Reads.marked {env : Env} {files : List Path} (hfiles : env.provider.Holds files)
    {site : Site} {st last : FileState} {run final : RunState} {tokens invoked : List Lexeme}
    (h : Reads env site st run tokens last final invoked)
    (hrun : run.cache.ResolvesTo fun _ => Path.IsNormal)
    (hstack : Stacked files site.chain) {depth : Nat} (hsite : site.At env depth) {fuel : Nat}
    (hfuel : min site.depth (files.length - depth) ≤ fuel) (notes : List Note) :
    ∃ more,
      markedScan env (markedBelow env fuel) site.chain depth site.file site.text st
        ⟨run, site.chain, notes⟩ tokens = some (last, ⟨final, site.chain, notes ++ more⟩) ∧
      ∀ note ∈ more, note.Orderly (min env.options.limits.includeDepth files.length) := by
  have hresolves := resolvesTo_isNormal hfiles
  have hpassed (site : Site) : Note.Orderly (min env.options.limits.includeDepth files.length)
      (.passed site.chain site.chain site.chain) := ⟨rfl, rfl⟩
  induction h generalizing depth fuel notes with
  | finish site st run => exact ⟨[], by rw [markedScan, List.append_nil], by simp⟩
  | @plain site st next last run after final t rest invoked _ item hitem hplain happly _ ih =>
    obtain ⟨-, -, hcache, -⟩ := frame_applyEffect env none site.chain site.file site.text st
      (run.noting item.diagnostics) hplain
    rw [happly] at hcache
    obtain ⟨more, hscan, hmore⟩ := ih (by rw [hcache]; exact hrun) hstack hsite hfuel notes
    refine ⟨more, ?_, hmore⟩
    rw [markedScan]
    simpa only [hitem, happly] using hscan
  | @refused site st last run after final t rest invoked item hitem spec offset heffect problem
      hrefused _ ih =>
    have hafter := hrefused.resolvesTo hresolves hrun
    obtain ⟨more, hscan, hmore⟩ := ih hafter hstack hsite hfuel
      (notes ++ [.passed site.chain site.chain site.chain])
    refine ⟨.passed site.chain site.chain site.chain :: more, ?_,
      List.forall_mem_cons.2 ⟨hpassed site, hmore⟩⟩
    rw [markedScan]
    simp only [hitem, heffect, markedInclude_of_refused hsite.2 hrefused, Option.bind_some,
      Marked.note, hscan, List.append_assoc, List.singleton_append]
  | @cached site st last run found final t rest invoked item hitem spec offset heffect levels hdepth
      path hlocated hchain file hfile _ ih =>
    obtain ⟨more, hscan, hmore⟩ := ih (resolvesTo_locate hresolves hlocated hrun).1 hstack hsite hfuel
      (notes ++ [.passed site.chain site.chain site.chain])
    refine ⟨.passed site.chain site.chain site.chain :: more, ?_,
      List.forall_mem_cons.2 ⟨hpassed site, hmore⟩⟩
    rw [markedScan]
    simp only [hitem, heffect, markedInclude_of_cached hsite _ _ hdepth hlocated hchain hfile,
      Option.bind_some, Marked.note, hscan, List.append_assoc, List.singleton_append]
  | @processed site st inner last run found left final t rest within invoked item hitem spec offset
      heffect levels hdepth path hlocated text htext hinner _ ihinner ih =>
    obtain ⟨hfound, hnormal⟩ := resolvesTo_locate hresolves hlocated hrun
    obtain ⟨hchain, -, hread, -⟩ := unread_eq_some env htext
    have hpath : path ∈ files := hnormal path rfl ▸ hfiles.read hread
    have hstack' : Stacked files (site.inside levels path text).chain :=
      hstack.cons hchain (hnormal path rfl) hpath
    have hlength : site.chain.length + 1 ≤ files.length + 1 := hstack'.length_le
    obtain ⟨hdeep, hlevels⟩ := hsite
    have hsite' : (site.inside levels path text).At env (depth + 1) :=
      ⟨congrArg (· + 1) hdeep, by rw [Site.depth_inside]; omega⟩
    obtain ⟨fuel, rfl⟩ : ∃ less, fuel = less + 1 := ⟨fuel - 1, by omega⟩
    have hreading : (found.reading path).cache.ResolvesTo fun _ => Path.IsNormal := hfound
    have henter := resolvesTo_enter hreading path.text text
    have hfuel' : min (site.inside levels path text).depth (files.length - (depth + 1)) ≤ fuel := by
      rw [Site.depth_inside]
      omega
    obtain ⟨inside, hscan', hinside⟩ := ihinner henter hstack' hsite' hfuel'
      (notes ++ [.entered (path :: site.chain) (path :: site.chain)])
    have hprocess : markedProcess env fuel (path :: site.chain) (depth + 1) path.text text
        ⟨found.reading path, path :: site.chain, notes⟩ = some (inner.contents path.text text,
          ⟨left, path :: site.chain,
            notes ++ .entered (path :: site.chain) (path :: site.chain) :: inside⟩) := by
      simpa using markedProcess_of_scan hscan'
    have hinclude := markedInclude_of_processed ⟨hdeep, hlevels⟩ (markedProcess env fuel) notes hdepth
      hlocated htext hprocess
    obtain ⟨more, hscan, hmore⟩ := ih (hinner.resolvesTo hresolves henter) hstack ⟨hdeep, hlevels⟩ hfuel
      (notes ++ .entered (path :: site.chain) (path :: site.chain) :: inside ++
        [.passed site.chain site.chain site.chain])
    refine ⟨.entered (path :: site.chain) (path :: site.chain) :: inside ++
      .passed site.chain site.chain site.chain :: more, ?_, ?_⟩
    · rw [markedScan]
      simp only [hitem, heffect, markedBelow, hinclude, Option.bind_some, Marked.note]
      rw [markedBelow] at hscan
      simpa using hscan
    · exact List.forall_mem_append.2 ⟨List.forall_mem_cons.2 ⟨orderly_entered hstack' hsite', hinside⟩,
        List.forall_mem_cons.2 ⟨hpassed site, hmore⟩⟩

theorem markedDocument_eq {env : Env} {files : List Path} (hfiles : env.provider.Holds files)
    {cache : IncludeCache} (hcache : cache.ResolvesTo fun _ => Path.IsNormal) {fuel : Nat}
    (hfuel : min env.options.limits.includeDepth files.length ≤ fuel) (file text : String) :
    ∃ notes,
      markedDocument env fuel cache file text =
        some ((document env cache file text).1, ⟨(document env cache file text).2, [], notes⟩) ∧
      ∀ note ∈ notes, note.Orderly (min env.options.limits.includeDepth files.length) := by
  by_cases hsize : env.options.limits.fileSize < text.utf8ByteSize
  · exact ⟨[], by simp only [markedDocument, document, if_pos hsize], by simp⟩
  · obtain ⟨last, final, hreads, hdocument⟩ := reads_document env cache hsize
    have hstack : Stacked files (documentSite env file text).chain := .singleton files ⟨file⟩
    have hsite : (documentSite env file text).At env 0 := ⟨rfl, Nat.zero_add _⟩
    have hstart : (startState env cache).cache.ResolvesTo fun _ => Path.IsNormal := hcache
    obtain ⟨more, hscan, hmore⟩ := hreads.marked hfiles (resolvesTo_enter hstart file text) hstack
      hsite hfuel [.entered [Path.normalize ⟨file⟩] [Path.normalize ⟨file⟩]]
    have hprocess : markedProcess env fuel [Path.normalize ⟨file⟩] 0 file text
        ⟨startState env cache, [Path.normalize ⟨file⟩], []⟩ = some (last.contents file text, _) :=
      markedProcess_of_scan hscan
    refine ⟨_, ?_, List.forall_mem_cons.2 ⟨orderly_entered hstack hsite, hmore⟩⟩
    have hmark (path : Path) : Marked.mark { run := startState env cache } path =
        ⟨startState env cache, [path], []⟩ := rfl
    have hunmark (path : Path) (notes : List Note) : Marked.unmark ⟨final, [path], notes⟩ path =
        ⟨final, [], notes⟩ := by simp [Marked.unmark]
    simp only [markedDocument, if_neg hsize, hmark, hprocess, Option.map_some, documentSite, hunmark,
      hdocument]
    rfl

end Preprocess

namespace Session

open Preprocess

theorem env_afterAll (s : Session) (documents : List (String × String)) :
    (s.afterAll documents).env = s.env := by
  induction documents generalizing s with
  | nil => rfl
  | cons d documents ih => exact ih (s.preprocess d.1 d.2).2

/-- Every document of a session is processed to its end with fuel for as many levels of includes as
there are files, and never more than the limit, whichever files include one another or themselves. No
path is twice on the chain of calls, the files in progress are those of the chain, each include leaves
them as they were, and none is left at the end. -/
theorem preprocess_within_files (options : Options) {provider : Provider} {files : List Path}
    (hfiles : provider.Holds files) (documents : List (String × String)) {fuel : Nat}
    (hfuel : min options.limits.includeDepth files.length ≤ fuel) (file text : String) :
    let s := afterAll { options, provider } documents
    ∃ notes,
      markedDocument s.env fuel s.cache file text =
        some ((s.preprocess file text).1, ⟨(document s.env s.cache file text).2, [], notes⟩) ∧
      ∀ note ∈ notes, note.Orderly (min options.limits.includeDepth files.length) := by
  intro s
  have henv : s.env = ⟨provider, options⟩ := env_afterAll { options, provider } documents
  have hlimit : s.env.options.limits.includeDepth = options.limits.includeDepth := by rw [henv]
  have hprovider : s.env.provider.Holds files := by rwa [henv]
  have hnormal : Env.ResolvesTo ⟨provider, options⟩ fun _ => Path.IsNormal := resolvesTo_isNormal hfiles
  have hcache : s.cache.ResolvesTo fun _ => Path.IsNormal :=
    cache_afterAll (P := (·.ResolvesTo fun _ => Path.IsNormal)) (s := { options, provider })
      (fun _ file text h => resolvesTo_document hnormal h file text)
      (IncludeCache.resolvesTo_empty _) documents
  have hfuel' : min s.env.options.limits.includeDepth files.length ≤ fuel := by rwa [hlimit]
  have hdocument := markedDocument_eq hprovider hcache hfuel' file text
  rwa [hlimit] at hdocument

/-- Two files that include each other and one that includes itself, and a limit that is never
reached. -/
theorem preprocess_within_files_cyclic :
    let provider := (Files.ofList [(⟨"/a"⟩, "`include </b>"), (⟨"/b"⟩, "`include </a>`include </c>"),
      (⟨"/c"⟩, "`include </c>")]).provider
    let options : Options := { limits := { includeDepth := 18446744073709551615 } }
    let s := afterAll { options, provider } [("/d", "`include </c>")]
    ∃ notes,
      markedDocument s.env 3 s.cache "/e" "`include </a>" =
        some ((s.preprocess "/e" "`include </a>").1,
          ⟨(document s.env s.cache "/e" "`include </a>").2, [], notes⟩) ∧
      ∀ note ∈ notes, note.Orderly 3 :=
  preprocess_within_files { limits := { includeDepth := 18446744073709551615 } } (Files.holds_ofList _) _
    (by decide) _ _

/-- One file, which the listing shows by another spelling of its path. -/
def respelled : Provider :=
  { (Files.ofList [(⟨"/a"⟩, "`include <q>")]).provider with
    endingIn := fun _ => [⟨"/x/../a"⟩] }

set_option maxRecDepth 100000 in
/-- The file includes itself by the other spelling. So it is twice on a chain of calls, and fuel for one
level is not enough for one file. -/
theorem not_within_files_respelled :
    (∀ path text, respelled.read path = .ok text → path.normalize ∈ [⟨"/a"⟩]) ∧
      markedDocument ⟨respelled, {}⟩ 1 .empty "/d" "`include </a>" = none ∧
      ∃ found m calls marks,
        markedDocument ⟨respelled, {}⟩ 2 .empty "/d" "`include </a>" = some (found, m) ∧
        .entered calls marks ∈ m.notes ∧ ¬(calls.map Path.normalize).Nodup := by
  refine ⟨fun path text h => (Files.holds_ofList [(⟨"/a"⟩, "`include <q>")]).read h, ?_, ?_⟩
  · have hnone : (markedDocument ⟨respelled, {}⟩ 1 .empty "/d" "`include </a>").isNone := by
      decide +kernel
    exact Option.isNone_iff_eq_none.1 hnone
  · have hentered : (markedDocument ⟨respelled, {}⟩ 2 .empty "/d" "`include </a>").any fun found =>
        found.2.notes.any fun
          | .entered calls _ => ¬(calls.map Path.normalize).Nodup
          | .passed _ _ _ => false := by
      decide +kernel
    obtain ⟨⟨found, m⟩, hfound, hnotes⟩ := (Option.any_eq_true _ _).1 hentered
    obtain ⟨note, hnote, hcalls⟩ := List.any_eq_true.1 hnotes
    cases note with
    | entered calls marks => exact ⟨found, m, calls, marks, hfound, hnote, of_decide_eq_true hcalls⟩
    | passed => cases hcalls

end Session

end HdlIndex
