import HdlIndex.Proofs.Preprocess.InProgress

/-! Includes that splice no file: they are nested too deep, or name a file that cannot be found, is in
progress already, cannot be read or is too large. Main statement: such an include reports one problem,
and behind it the run may know what one more text is resolved to. Nothing else is touched, neither of
the run and of the file nor of the files in progress. -/

namespace HdlIndex

/-- What a text is resolved to is remembered in front of the others, if it was not known before. -/
theorem IncludeCache.remember_of_unknown {c : IncludeCache} {spec : String}
    (h : c.resolved? spec = none) (path : Path) :
    c.remember spec path = { c with resolved := (spec, path) :: c.resolved } := by
  have hothers : c.resolved.filter (·.1 != spec) = c.resolved := by
    refine List.filter_eq_self.2 fun entry hentry => ?_
    have hne : (spec == entry.1) = false := by
      simpa using List.lookup_eq_none_iff.1 h entry hentry
    rw [bne_iff_ne]
    exact (beq_eq_false_iff_ne.1 hne).symm
  rw [remember, hothers]

namespace Preprocess

variable {env : Env} {site : Site} {spec : String} {run after : RunState} {problem : Problem}

/-- A cache behind the search for a file holds the same files as in front of it, and knows at most one
more text, which it did not know, by the path that the text is resolved to. -/
structure LearnsAtMost (env : Env) (spec including : String) (before after : IncludeCache) : Prop where
  entries : after.entries = before.entries
  resolved : after.resolved = before.resolved ∨
    before.resolved? spec = none ∧ ∃ path, resolve env spec including = some path ∧
      after.resolved = (spec, path) :: before.resolved

theorem LearnsAtMost.refl (env : Env) (spec including : String) (c : IncludeCache) :
    LearnsAtMost env spec including c c := ⟨rfl, .inl rfl⟩

theorem learnsAtMost_locate (env : Env) (spec including : String) (run : RunState) :
    LearnsAtMost env spec including run.cache (locate env spec including run).2.cache := by
  unfold locate
  split
  · exact .refl env spec including run.cache
  · next hunknown =>
    split
    · exact .refl env spec including run.cache
    · next path hpath =>
      dsimp only
      rw [IncludeCache.remember_of_unknown hunknown path]
      exact ⟨rfl, .inr ⟨hunknown, path, hpath, rfl⟩⟩

theorem Refuses.learnsAtMost (h : Refuses env site spec run problem after) :
    LearnsAtMost env spec site.file run.cache after.cache := by
  cases h with
  | tooDeep => exact .refl env spec site.file run.cache
  | unresolved _ hlocated | cycle _ hlocated | unreadable _ hlocated | tooLarge _ hlocated =>
    have hlearns := learnsAtMost_locate env spec site.file run
    rwa [hlocated] at hlearns

theorem Refuses.diagnostics_eq (h : Refuses env site spec run problem after) :
    after.diagnostics = run.diagnostics := by
  cases h with
  | tooDeep => rfl
  | unresolved _ hlocated | cycle _ hlocated | unreadable _ hlocated | tooLarge _ hlocated =>
    have hsame := diagnostics_locate env spec site.file run
    rwa [hlocated] at hsame

/-- An include that opens no file is refused for one of the five reasons. -/
theorem exists_refuses (hclosed : ∀ opened,
      (findInclude env (levels env site.depth) site.chain site.file spec run).1 ≠ .ok opened) :
    ∃ problem after, Refuses env site spec run problem after ∧
      findInclude env (levels env site.depth) site.chain site.file spec run =
        (.error problem, after) := by
  rcases findInclude_cases env site spec run with
    hrefused | ⟨depth, path, found, -, -, ⟨file, -, -, hfound⟩ | ⟨text, -, hfound⟩⟩
  · exact hrefused
  · exact absurd (congrArg Prod.fst hfound) (hclosed _)
  · exact absurd (congrArg Prod.fst hfound) (hclosed _)

/-- A failed include is atomic. Whatever the state of the run and of the file, an include that opens no
file is refused for one of the five reasons, leaves the file as it was, appends the problem to what was
reported, and leaves definitions, texts and files in the cache as they were; the cache knows at most
one more text by the path that it is resolved to. Done with a set of files in progress, the include is
refused in the same way and leaves the set as it was. -/
theorem inclusion_atomic_of_not_opened (env : Env) (site : Site) (st : FileState) (run : RunState)
    (spec : String) (offset : Nat) (hclosed : ∀ opened,
      (findInclude env (levels env site.depth) site.chain site.file spec run).1 ≠ .ok opened) :
    ∃ problem found after,
      Refuses env site spec run problem found ∧
      applyEffect env (levels env site.depth) site.chain site.file site.text st run
          (.inclusion spec offset) = (st, after) ∧
      after.diagnostics = run.diagnostics ++ [.located problem site.file offset] ∧
      after.macros = run.macros ∧ after.sources = run.sources ∧
      LearnsAtMost env spec site.file run.cache after.cache ∧
      ∀ (nested : MarkedProcess) (calls : List Path) (depth : Nat) (notes : List Note),
        depth + site.depth = env.options.limits.includeDepth →
          markedInclude env nested calls depth site.file spec ⟨run, site.chain, notes⟩ =
            some (.error problem, ⟨found, site.chain, notes⟩) := by
  obtain ⟨problem, found, hrefused, hfound⟩ := exists_refuses hclosed
  have hframe := hrefused.frame
  refine ⟨problem, found, found.report (.located problem site.file offset), hrefused, ?_, ?_,
    hframe.macros, hframe.sources, hrefused.learnsAtMost, fun nested calls depth notes hlevels =>
      markedInclude_of_refused hlevels hrefused nested calls notes⟩
  · simp only [applyEffect, hfound]
  · rw [RunState.report, hrefused.diagnostics_eq]

/-- A header that includes itself by a text that the run has not resolved before. -/
def cyclicEnv : Env :=
  ⟨(Files.ofList [(⟨"/a.svh"⟩, "`include \"a.svh\"")]).provider, { limits := { includeDepth := 2 } }⟩

/-- The place of the header, which another file includes, with one more level to go. -/
def cyclicSite : Site := ⟨1, [⟨"/a.svh"⟩, ⟨"/top.sv"⟩], "/a.svh", "`include \"a.svh\""⟩

/-- A run with one definition and with nothing in its cache. -/
def cyclicRun : RunState := { cache := .empty, macros := ⟨[.user "A" []]⟩ }

theorem inclusion_atomic_of_not_opened_cyclic :
    let env := cyclicEnv
    let site := cyclicSite
    let run := cyclicRun
    let st : FileState := { log := [.delete "B"], includes := ["/b.svh"] }
    (∀ opened, (findInclude env (levels env site.depth) site.chain site.file "a.svh" run).1 ≠
        .ok opened) ∧
      ∃ found after,
        Refuses env site "a.svh" run (.includeCycle "/a.svh") found ∧
        applyEffect env (levels env site.depth) site.chain site.file site.text st run
            (.inclusion "a.svh" 0) = (st, after) ∧
        after.diagnostics = [.located (.includeCycle "/a.svh") "/a.svh" 0] ∧
        after.macros = run.macros ∧ after.sources = run.sources ∧ after.cache.entries = [] ∧
        after.cache.resolved = [("a.svh", ⟨"/a.svh"⟩)] ∧
        markedInclude env (fun _ _ _ _ _ => none) site.chain 1 site.file "a.svh"
            ⟨run, site.chain, []⟩ =
          some (.error (.includeCycle "/a.svh"), ⟨found, site.chain, []⟩) := by
  have hcycle : (findInclude cyclicEnv (levels cyclicEnv cyclicSite.depth) cyclicSite.chain
      cyclicSite.file "a.svh" cyclicRun).1 = .error (.includeCycle "/a.svh") := by rfl
  have hclosed : ∀ opened, (findInclude cyclicEnv (levels cyclicEnv cyclicSite.depth)
      cyclicSite.chain cyclicSite.file "a.svh" cyclicRun).1 ≠ .ok opened := by simp [hcycle]
  obtain ⟨problem, found, after, hrefused, happly, hdiagnostics, hmacros, hsources, hlearns, hmarked⟩ :=
    inclusion_atomic_of_not_opened cyclicEnv cyclicSite { log := [.delete "B"], includes := ["/b.svh"] }
      cyclicRun "a.svh" 0 hclosed
  have hproblem : problem = .includeCycle "/a.svh" := by
    have hreason : (markedInclude cyclicEnv (fun _ _ _ _ _ => none) cyclicSite.chain 1
        cyclicSite.file "a.svh" ⟨cyclicRun, cyclicSite.chain, []⟩).map (·.1) =
          some (.error (.includeCycle "/a.svh")) := by rfl
    rw [hmarked _ _ 1 [] rfl] at hreason
    simpa using hreason
  have hresolved : (applyEffect cyclicEnv (levels cyclicEnv cyclicSite.depth) cyclicSite.chain
      cyclicSite.file cyclicSite.text { log := [.delete "B"], includes := ["/b.svh"] } cyclicRun
      (.inclusion "a.svh" 0)).2.cache.resolved = [("a.svh", ⟨"/a.svh"⟩)] := by rfl
  rw [happly] at hresolved
  subst hproblem
  exact ⟨hclosed, found, after, hrefused, happly, hdiagnostics, hmacros, hsources, hlearns.entries,
    hresolved, hmarked _ _ 1 [] rfl⟩

end Preprocess

end HdlIndex
