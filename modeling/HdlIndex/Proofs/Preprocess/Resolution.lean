import HdlIndex.Proofs.Preprocess.Course

/-! Which file an include opens. What the text of an include names is settled once in a run, by the
first include with that text that finds a file; the places of later ones do not count. Main
statement: in a document that starts without a cache, every include opens the file that the first
include with its text resolves to. An include may thus open another file than its own place would
give. -/

namespace HdlIndex

namespace Preprocess

/-- The include that settles what a text names: the first one with that text that finds a file. -/
def settledBy (spec : String) (done : List Inclusion) : Option Inclusion :=
  done.find? fun i => i.spec == spec && i.located.isSome

theorem settledBy_append_singleton (spec : String) (done : List Inclusion) (i : Inclusion) :
    settledBy spec (done ++ [i]) =
      (settledBy spec done).or (if i.spec = spec ∧ i.located.isSome then some i else none) := by
  unfold settledBy
  rw [List.find?_append]
  congr 1
  by_cases hi : i.spec = spec ∧ i.located.isSome
  · simp [hi]
  · simp [hi]

theorem of_settledBy {spec : String} {done : List Inclusion} {i : Inclusion}
    (h : settledBy spec done = some i) : i.spec = spec ∧ i.located.isSome := by
  have := List.find?_some h
  simpa using this

/-- The includes so far account for the texts that the cache has resolved. -/
structure Traced (env : Env) (done : List Inclusion) (cache : IncludeCache) : Prop where
  resolved (spec : String) : cache.resolved? spec = (settledBy spec done).bind (·.located)
  first {spec : String} {i : Inclusion} (h : settledBy spec done = some i) :
    i.located = resolve env spec i.including
  located {i : Inclusion} (hi : i ∈ done) {path : Path} (h : i.located = some path) :
    cache.resolved? i.spec = some path
  opened {i : Inclusion} (hi : i ∈ done) {path : Path} (h : i.opened = some path) :
    i.located = some path

namespace Traced

variable {env : Env} {done : List Inclusion} {cache : IncludeCache}

theorem empty (env : Env) : Traced env [] .empty where
  resolved _ := rfl
  first h := by cases h
  located hi := by cases hi
  opened hi := by cases hi

/-- Only the texts that are resolved matter. -/
theorem congr (h : Traced env done cache) {other : IncludeCache}
    (hother : ∀ spec, other.resolved? spec = cache.resolved? spec) : Traced env done other where
  resolved spec := (hother spec).trans (h.resolved spec)
  first := h.first
  located hi _ hpath := (hother _).trans (h.located hi hpath)
  opened := h.opened

/-- An include that finds no file settles nothing. -/
theorem add_none (h : Traced env done cache) {i : Inclusion} (hlocated : i.located = none)
    (hopened : i.opened = none) : Traced env (done ++ [i]) cache := by
  have hsettled (spec : String) : settledBy spec (done ++ [i]) = settledBy spec done := by
    rw [settledBy_append_singleton, if_neg (by simp [hlocated]), Option.or_none]
  refine ⟨fun spec => ?_, fun {spec j} hj => ?_, fun {j} hj => ?_, fun {j} hj => ?_⟩
  · rw [hsettled]
    exact h.resolved spec
  · rw [hsettled] at hj
    exact h.first hj
  · rcases List.mem_append.1 hj with hj | hj
    · exact h.located hj
    · simp [List.mem_singleton.1 hj, hlocated]
  · rcases List.mem_append.1 hj with hj | hj
    · exact h.opened hj
    · simp [List.mem_singleton.1 hj, hopened]

/-- An include finds what its text names already, or settles it. -/
theorem add (h : Traced env done cache) {i : Inclusion}
    (hlocated : i.located = (cache.resolved? i.spec).or (resolve env i.spec i.including))
    (hopened : ∀ path, i.opened = some path → i.located = some path) {found : IncludeCache}
    (hfound : ∀ s, found.resolved? s = if s = i.spec then i.located else cache.resolved? s) :
    Traced env (done ++ [i]) found := by
  cases hi : i.located with
  | none =>
    have hnone : cache.resolved? i.spec = none := by
      rw [hi] at hlocated
      exact (Option.or_eq_none_iff.1 hlocated.symm).1
    refine (h.add_none hi ?_).congr fun s => ?_
    · exact Option.eq_none_iff_forall_ne_some.2 fun path hpath => by simp [hopened path hpath] at hi
    · rw [hfound]
      split
      · next hs => rw [hi, hs, hnone]
      · rfl
  | some path =>
    have hsettled (spec : String) : settledBy spec (done ++ [i]) =
        (settledBy spec done).or (if i.spec = spec then some i else none) := by
      rw [settledBy_append_singleton]
      simp [hi]
    -- What the text names already is what this include finds.
    have hkeep {p : Path} (hp : cache.resolved? i.spec = some p) : i.located = some p := by
      rw [hlocated, hp, Option.some_or]
    refine ⟨fun spec => ?_, fun {spec j} hj => ?_, fun {j} hj p hp => ?_, fun {j} hj => ?_⟩
    · rw [hfound, hsettled]
      split
      · next hspec =>
        have hcache := h.resolved i.spec
        rw [hspec, if_pos rfl]
        cases hfirst : settledBy i.spec done with
        | none => rfl
        | some j =>
          obtain ⟨p, hp⟩ := Option.isSome_iff_exists.1 (of_settledBy hfirst).2
          rw [hfirst, Option.bind_some, hp] at hcache
          rw [hkeep hcache, Option.some_or, Option.bind_some, hp]
      · next hspec => rw [if_neg (Ne.symm hspec), Option.or_none, h.resolved]
    · rw [hsettled] at hj
      cases hfirst : settledBy spec done with
      | some first =>
        rw [hfirst, Option.some_or] at hj
        cases hj
        exact h.first hfirst
      | none =>
        rw [hfirst, Option.none_or, Option.ite_none_right_eq_some] at hj
        obtain ⟨rfl, hj⟩ := hj
        cases hj
        rw [hlocated, h.resolved, hfirst, Option.bind_none, Option.none_or]
    · rw [hfound]
      rcases List.mem_append.1 hj with hj | hj
      · have hcache := h.located hj hp
        split
        · next hspec => exact hkeep (hspec ▸ hcache)
        · exact hcache
      · cases List.mem_singleton.1 hj
        rw [if_pos rfl, hp]
    · rcases List.mem_append.1 hj with hj | hj
      · exact h.opened hj
      · cases List.mem_singleton.1 hj
        exact hopened _

end Traced

/-! ### Runs -/

/-- Texts stay settled: whatever the includes in front, those of a file are accounted for. -/
def KeepsTrace (env : Env) (task : Task) (run : RunState) (done : List Inclusion) : Prop :=
  ∀ prior, Traced env prior task.start.cache → Traced env (prior ++ done) run.cache

theorem KeepsTrace.located {env : Env} {task : Task} {run : RunState} {done : List Inclusion}
    (h : KeepsTrace env task run done) {i : Inclusion} {found : RunState}
    (hlocated : locate env i.spec i.including run = (i.located, found))
    (hopened : ∀ path, i.opened = some path → i.located = some path) :
    KeepsTrace env task found (done ++ [i]) := by
  intro prior hprior
  obtain ⟨hpath, hfound⟩ := resolved?_locate env i.spec i.including run hlocated
  rw [← List.append_assoc]
  exact (h prior hprior).add hpath hopened hfound

theorem invariant_keepsTrace (env : Env) :
    Invariant env (fun task _ run done => KeepsTrace env task run done)
      (fun task _ run done => KeepsTrace env task run done) where
  enter task prior hprior := by
    rw [List.append_nil, cache_enter]
    exact hprior
  agrees h other hother prior hprior := by
    rw [hother.1]
    exact h prior hprior
  effect {task st run done} h nested t rest _ effect _ hplain prior hprior := by
    obtain ⟨-, -, hcache, -⟩ :=
      frame_applyEffect env nested task.chain task.file task.text st run hplain
    rw [hcache]
    exact h prior hprior
  refused {task st run done} h spec located found after hlocated problem := by
    rcases hlocated with hlocated | ⟨rfl, rfl⟩
    · exact h.located (i := ⟨task.file, spec, _, located, .error problem, run, after⟩) hlocated
        (by simp [Inclusion.opened])
    · intro prior hprior
      rw [← List.append_assoc]
      exact (h prior hprior).add_none rfl rfl
  cached {task st run done} h spec path found hlocated hchain file hfile after hafter := by
    have := h.located (i := ⟨task.file, spec, task.chain, some path, .ok (path, file), run, after⟩)
      hlocated (by simp [Inclusion.opened])
    rw [hafter] at this ⊢
    exact this
  processed {task st run done} h spec path found hlocated text htext file left inner hfile after
      hafter prior hprior := by
    let i : Inclusion := ⟨task.file, spec, task.chain, some path, .ok (path, file), run, after⟩
    have hfound : KeepsTrace env task found (done ++ [i]) :=
      h.located hlocated (by simp [i, Inclusion.opened])
    have hleft := hfile _ (hfound prior hprior)
    rw [hafter]
    refine (Traced.congr ?_ (fun s => left.cache.resolved?_insert path file s))
    simpa [i, hafter] using hleft
  leave h := h

theorem traced_documentCourse (env : Env) (file text : String) :
    Traced env (documentCourse env .empty file text)
      (document env .empty file text).2.cache := by
  by_cases hsize : env.options.limits.fileSize < text.utf8ByteSize
  · simp only [documentCourse, document, if_pos hsize]
    exact Traced.empty env
  · simp only [documentCourse, document, if_neg hsize]
    exact (invariant_keepsTrace env).process _ _ _ _ (startState env .empty) [] (Traced.empty env)

/-- In a document that starts without a cache, the text of an include is resolved once: every include
that opens a file opens the one that the first include with its text to find a file resolves to,
seen from the file that holds that first one. This covers the document and all files that it
includes, directly or through others. -/
theorem opened_eq_resolve_first (env : Env) (file text : String) {i : Inclusion}
    (hi : i ∈ documentCourse env .empty file text) {path : Path} (hopened : i.opened = some path) :
    ∃ first, settledBy i.spec (documentCourse env .empty file text) = some first ∧
      resolve env i.spec first.including = some path := by
  have h := traced_documentCourse env file text
  have hcache := h.located hi (h.opened hi hopened)
  rw [h.resolved] at hcache
  obtain ⟨first, hfirst, hpath⟩ := Option.bind_eq_some_iff.1 hcache
  exact ⟨first, hfirst, (h.first hfirst).symm.trans hpath⟩

/-! ### Two folders -/

/-- Two folders, each with a file that includes its neighbour. -/
def neighbours : Env where
  provider := (Files.ofList [(⟨"/a/x"⟩, "`include <n>"), (⟨"/b/x"⟩, "`include <n>"),
    (⟨"/a/n"⟩, "p"), (⟨"/b/n"⟩, "q")]).provider
  options := {}

/-- A document that includes both. -/
def bothNeighbours : List Inclusion :=
  documentCourse neighbours .empty "/d" "`include </a/x>`include </b/x>"

set_option maxRecDepth 100000 in
theorem opened_bothNeighbours :
    bothNeighbours.map (fun i => (i.including, i.spec, i.opened)) =
      [("/d", "/a/x", some ⟨"/a/x"⟩), ("/a/x", "n", some ⟨"/a/n"⟩), ("/d", "/b/x", some ⟨"/b/x"⟩),
        ("/b/x", "n", some ⟨"/a/n"⟩)] := by
  decide +kernel

/-- The include in the second folder. -/
theorem exists_second_neighbour :
    ∃ i ∈ bothNeighbours, i.including = "/b/x" ∧ i.spec = "n" ∧ i.opened = some ⟨"/a/n"⟩ := by
  have hmem : ("/b/x", "n", some ⟨"/a/n"⟩) ∈
      bothNeighbours.map fun i => (i.including, i.spec, i.opened) := by
    rw [opened_bothNeighbours]
    decide
  obtain ⟨i, hi, hfields⟩ := List.mem_map.1 hmem
  simp only [Prod.mk.injEq] at hfields
  exact ⟨i, hi, hfields⟩

theorem opened_eq_resolve_first_neighbours :
    ∃ i ∈ bothNeighbours, i.including = "/b/x" ∧ i.opened = some ⟨"/a/n"⟩ ∧
      ∃ first, settledBy i.spec bothNeighbours = some first ∧
        resolve neighbours i.spec first.including = some ⟨"/a/n"⟩ := by
  obtain ⟨i, hi, hincluding, -, hopened⟩ := exists_second_neighbour
  exact ⟨i, hi, hincluding, hopened, opened_eq_resolve_first _ _ _ hi hopened⟩

/-- The place of an include does not always count: this one opens the neighbour of another file,
although it has one of its own. -/
theorem opened_ne_resolve :
    ∃ i ∈ bothNeighbours, i.including = "/b/x" ∧ i.opened = some ⟨"/a/n"⟩ ∧
      resolve neighbours i.spec i.including = some ⟨"/b/n"⟩ := by
  obtain ⟨i, hi, hincluding, hspec, hopened⟩ := exists_second_neighbour
  refine ⟨i, hi, hincluding, hopened, ?_⟩
  rw [hincluding, hspec]
  decide

end Preprocess

end HdlIndex
