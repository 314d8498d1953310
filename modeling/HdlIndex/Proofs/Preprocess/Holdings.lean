import HdlIndex.Proofs.Preprocess.Course
import HdlIndex.Proofs.Sources

/-! What a run adds to what is kept. Every file that it adds to the cache is among the included files,
and every text that it adds to the sources is among the sources of the included files. So if a file
is taken from a cache that has all of this already, nothing that is kept gets lost. -/

namespace HdlIndex

namespace IncludeCache

/-- Whether a file is in the cache. -/
def Has (c : IncludeCache) (path : Path) : Prop := (c.get? path).isSome

theorem has_insert {c : IncludeCache} {path : Path} {file : IncludedFile} {p : Path} :
    (c.insert path file).Has p ↔ path.same p ∨ c.Has p := by
  unfold Has
  rw [get?_insert]
  split <;> simp_all

/-- Whether the cache has all files that its files include. -/
def Closed (c : IncludeCache) : Prop :=
  ∀ path file, c.get? path = some file → ∀ name ∈ file.includes, c.Has ⟨name⟩

theorem Closed.insert {c : IncludeCache} (h : c.Closed) (path : Path) {file : IncludedFile}
    (hfile : ∀ name ∈ file.includes, c.Has ⟨name⟩) : (c.insert path file).Closed := by
  intro p e he name hname
  rw [get?_insert] at he
  refine has_insert.2 (.inr ?_)
  split at he
  · cases he
    exact hfile name hname
  · exact h p e he name hname

end IncludeCache

namespace Preprocess

open IncludeCache (Closed)

theorem mem_includes_splice {st : FileState} {path : Path} {file : IncludedFile} {name : String} :
    name ∈ (st.splice path file).includes ↔
      name ∈ st.includes ∨ name = path.text ∨ name ∈ file.includes := by
  have hfold : ∀ names includes : List String, name ∈ names.foldl
      (fun includes f => if includes.contains f then includes else includes ++ [f]) includes ↔
        name ∈ includes ∨ name ∈ names := by
    intro names
    induction names with
    | nil => simp
    | cons first names ih =>
      intro includes
      rw [List.foldl_cons, ih]
      split
      · next hfirst =>
        have hmem : first ∈ includes := by simpa using hfirst
        constructor
        · exact fun h => h.imp_right (List.mem_cons_of_mem _)
        · rintro (h | h)
          · exact .inl h
          · rcases List.mem_cons.1 h with rfl | h
            · exact .inl hmem
            · exact .inr h
      · simp [or_assoc]
  rw [FileState.splice, hfold, List.mem_cons]

/-! ### The cache -/

/-- A cache that has all that another one had. -/
structure Extends (start cache : IncludeCache) : Prop where
  resolved {spec : String} {path : Path} (h : start.resolved? spec = some path) :
    cache.resolved? spec = some path
  files {path : Path} {file : IncludedFile} (h : start.get? path = some file) :
    cache.get? path = some file

namespace Extends

variable {start cache other : IncludeCache}

theorem refl (cache : IncludeCache) : Extends cache cache := ⟨id, id⟩

theorem trans (h : Extends start cache) (h' : Extends cache other) : Extends start other :=
  ⟨fun hs => h'.resolved (h.resolved hs), fun hf => h'.files (h.files hf)⟩

theorem has (h : Extends start cache) {path : Path} (hpath : start.Has path) : cache.Has path := by
  obtain ⟨file, hfile⟩ := Option.isSome_iff_exists.1 hpath
  exact Option.isSome_of_eq_some (h.files hfile)

theorem locate {env : Env} {spec including : String} {run found : RunState} {located : Option Path}
    (hlocated : Preprocess.locate env spec including run = (located, found)) :
    Extends run.cache found.cache where
  resolved {s path} hs := by
    obtain ⟨hpath, hfound⟩ := resolved?_locate env spec including run hlocated
    rw [hfound, hpath]
    split
    · next heq => rw [← heq, hs, Option.some_or]
    · exact hs
  files {path file} hfile := by
    have hcache := cache_locate_get? env spec including run path
    rw [hlocated] at hcache
    exact hcache.trans hfile

theorem insert {path : Path} (hpath : start.get? path = none) (h : Extends start cache)
    (file : IncludedFile) : Extends start (cache.insert path file) where
  resolved := h.resolved
  files {p f} hf := by
    have hother : ¬path.same p := fun hsame => by
      rw [start.get?_of_same hsame, hf] at hpath
      cases hpath
    rw [IncludeCache.get?_insert, if_neg hother]
    exact h.files hf

end Extends

/-- The files that a cache has beyond another one come from includes, whose names are noted. -/
def Stocked (start cache : IncludeCache) (includes : List String) (done : List Inclusion) : Prop :=
  ∀ path file, cache.get? path = some file → start.get? path = some file ∨
    ∃ i ∈ done, ∃ p, i.result = .ok (p, file) ∧ p.same path ∧ p.text ∈ includes

theorem Stocked.mono {start cache : IncludeCache} {includes includes' : List String}
    {done done' : List Inclusion} (h : Stocked start cache includes done)
    (hincludes : includes ⊆ includes') (hdone : done ⊆ done') :
    Stocked start cache includes' done' := by
  intro path file hfile
  refine (h path file hfile).imp_right ?_
  rintro ⟨i, hi, p, hresult, hsame, hname⟩
  exact ⟨i, hdone hi, p, hresult, hsame, hincludes hname⟩

/-- From one cache to another, with the includes on the way and the names of the files. -/
structure Holds (start cache : IncludeCache) (includes : List String) (done : List Inclusion) :
    Prop where
  grows : Extends start cache
  new : Stocked start cache includes done
  closed (h : Closed start) : Closed cache ∧ ∀ name ∈ includes, cache.Has ⟨name⟩

namespace Holds

variable {start : IncludeCache} {includes : List String} {done : List Inclusion}

theorem refl (cache : IncludeCache) : Holds cache cache [] [] where
  grows := .refl cache
  new _ _ h := .inl h
  closed h := ⟨h, by simp⟩

theorem locate {env : Env} {spec including : String} {run found : RunState}
    {located : Option Path} (h : Holds start run.cache includes done)
    (hlocated : Preprocess.locate env spec including run = (located, found)) :
    Holds start found.cache includes done := by
  have hcache (path : Path) : found.cache.get? path = run.cache.get? path := by
    simpa only [hlocated] using cache_locate_get? env spec including run path
  refine ⟨h.grows.trans (.locate hlocated), fun path file hfile => ?_, fun hs => ?_⟩
  · rw [hcache] at hfile
    exact h.new path file hfile
  · obtain ⟨hclosed, hincludes⟩ := h.closed hs
    unfold IncludeCache.Closed IncludeCache.Has at *
    simp only [hcache]
    exact ⟨hclosed, hincludes⟩

end Holds

theorem subset_includes_splice (st : FileState) (path : Path) (file : IncludedFile) :
    st.includes ⊆ (st.splice path file).includes := fun _ hname => mem_includes_splice.2 (.inl hname)

theorem invariant_holds (env : Env) :
    Invariant env (fun task st run done => Holds task.start.cache run.cache st.includes done)
      (fun task file run done => Holds task.start.cache run.cache file.includes done) where
  enter task := by
    rw [cache_enter]
    exact .refl _
  agrees h other hother := by
    rw [hother.1]
    exact h
  effect {task st run done} h nested t rest _ effect _ hplain := by
    obtain ⟨hincludes, -, hcache, -⟩ :=
      frame_applyEffect env nested task.chain task.file task.text st run hplain
    rw [hincludes, hcache]
    exact h
  refused {task st run done} h spec located found after hlocated problem := by
    have hfound : Holds task.start.cache found.cache st.includes done := by
      rcases hlocated with hlocated | ⟨-, rfl⟩
      · exact h.locate hlocated
      · exact h
    exact { hfound with new := hfound.new.mono (List.Subset.refl _) (List.subset_append_left _ _) }
  cached {task st run done} h spec path found hlocated hchain file hfile after hafter := by
    subst hafter
    have hfound := h.locate hlocated
    refine ⟨hfound.grows,
      hfound.new.mono (subset_includes_splice st path file) (List.subset_append_left _ _),
      fun hs => ?_⟩
    obtain ⟨hclosed, hincludes⟩ := hfound.closed hs
    refine ⟨hclosed, fun name hname => ?_⟩
    rcases mem_includes_splice.1 hname with hname | rfl | hname
    · exact hincludes name hname
    · exact Option.isSome_of_eq_some hfile
    · exact hclosed path file hfile name hname
  processed {task st run done} h spec path found hlocated text htext file left inner hfile after
      hafter := by
    subst hafter
    have hfound := h.locate hlocated
    have hnew : found.cache.get? path = none := (unread_eq_some env htext).2.1
    have hgrows : Extends found.cache (left.cache.insert path file) := hfile.grows.insert hnew file
    refine ⟨hfound.grows.trans hgrows, fun p f hf => ?_, fun hs => ?_⟩
    · rw [IncludeCache.get?_insert] at hf
      split at hf
      · next hsame =>
        cases hf
        exact .inr ⟨_, List.mem_append_right _ List.mem_cons_self, path, rfl, hsame,
          mem_includes_splice.2 (.inr (.inl rfl))⟩
      · rcases hfile.new p f hf with hp | ⟨i, hi, q, hresult, hsame, hname⟩
        · exact hfound.new.mono (subset_includes_splice st path file)
            (List.subset_append_left _ _) p f hp
        · exact .inr ⟨i, List.mem_append_right _ (List.mem_cons_of_mem _ hi), q, hresult, hsame,
            mem_includes_splice.2 (.inr (.inr hname))⟩
    · obtain ⟨hclosed, hincludes⟩ := hfound.closed hs
      obtain ⟨hleft, hinner⟩ := hfile.closed hclosed
      refine ⟨hleft.insert path hinner, fun name hname => ?_⟩
      rcases mem_includes_splice.1 hname with hname | rfl | hname
      · exact hgrows.has (hincludes name hname)
      · exact IncludeCache.has_insert.2 (.inl (Path.same_refl _))
      · exact IncludeCache.has_insert.2 (.inr (hinner name hname))
  leave h := h

/-! ### The sources -/

section Genuine

variable (env : Env) (document : String)

/-- Texts that are those of the files of their names, apart from that of the document. -/
def Genuine (s : Sources) : Prop :=
  ∀ name text, s.get? name = some text → name ≠ document → env.provider.read ⟨name⟩ = .ok text

/-- Texts of other files than the document. -/
def Foreign (s : Sources) : Prop :=
  ∀ name text, s.get? name = some text → name ≠ document ∧ env.provider.read ⟨name⟩ = .ok text

/-- A cache of files with such texts. -/
def ForeignCache (cache : IncludeCache) : Prop :=
  ∀ path file, cache.get? path = some file → Foreign env document file.sources

variable {env document}

theorem Foreign.empty : Foreign env document .empty := fun _ _ h => by cases h

theorem Foreign.insert {s : Sources} (h : Foreign env document s) {name text : String}
    (hname : name ≠ document) (hread : env.provider.read ⟨name⟩ = .ok text) :
    Foreign env document (s.insert name text) := by
  intro f t hf
  rw [Sources.get?_insert] at hf
  split at hf
  · next heq =>
    cases hf
    exact heq ▸ ⟨hname, hread⟩
  · exact h f t hf

theorem Foreign.merge {s t : Sources} (hs : Foreign env document s) (ht : Foreign env document t) :
    Foreign env document (s.merge t) := by
  intro f text hf
  rw [Sources.get?_merge] at hf
  rcases Option.or_eq_some_iff.1 hf with hf | ⟨-, hf⟩
  · exact hs f text hf
  · exact ht f text hf

theorem Genuine.insert {s : Sources} (h : Genuine env document s) {name text : String}
    (hread : name ≠ document → env.provider.read ⟨name⟩ = .ok text) :
    Genuine env document (s.insert name text) := by
  intro f t hf hne
  rw [Sources.get?_insert] at hf
  split at hf
  · next heq =>
    cases hf
    subst heq
    exact hread hne
  · exact h f t hf hne

theorem Genuine.merge {s t : Sources} (hs : Genuine env document s) (ht : Foreign env document t) :
    Genuine env document (s.merge t) := by
  intro f text hf hne
  rw [Sources.get?_merge] at hf
  rcases Option.or_eq_some_iff.1 hf with hf | ⟨-, hf⟩
  · exact hs f text hf hne
  · exact (ht f text hf).2

theorem ForeignCache.insert {cache : IncludeCache} (h : ForeignCache env document cache) (path : Path)
    {file : IncludedFile} (hfile : Foreign env document file.sources) :
    ForeignCache env document (cache.insert path file) := by
  intro p e he
  rw [IncludeCache.get?_insert] at he
  split at he
  · cases he
    exact hfile
  · exact h p e he

theorem ForeignCache.locate {spec including : String} {run found : RunState}
    {located : Option Path} (h : ForeignCache env document run.cache)
    (hlocated : Preprocess.locate env spec including run = (located, found)) :
    ForeignCache env document found.cache := by
  intro p e he
  have hcache := cache_locate_get? env spec including run p
  rw [hlocated] at hcache
  exact h p e (hcache.symm.trans he)

end Genuine

/-- A file that is processed in a run with genuine texts, be it the document or another one. -/
structure Task.Genuine (env : Env) (document : String) (task : Task) : Prop where
  sources : Preprocess.Genuine env document task.start.sources
  cache : ForeignCache env document task.start.cache
  text : task.file ≠ document → env.provider.read ⟨task.file⟩ = .ok task.text

/-- The texts of a run are those it started with, that of the file and those of the included files,
as long as nothing is included under the name of the document. -/
theorem invariant_sources (env : Env) (document : String) :
    Invariant env
      (fun task st run done => task.Genuine env document →
        (∀ i ∈ done, ∀ path, i.opened = some path → path.text ≠ document) →
        Genuine env document run.sources ∧ ForeignCache env document run.cache ∧
          Foreign env document st.sources ∧
          run.sources = (task.start.sources.insert task.file task.text).merge st.sources)
      (fun task file run done => task.Genuine env document →
        (∀ i ∈ done, ∀ path, i.opened = some path → path.text ≠ document) →
        task.file ≠ document →
        Genuine env document run.sources ∧ ForeignCache env document run.cache ∧
          Foreign env document file.sources ∧
          run.sources = task.start.sources.merge file.sources) where
  enter task htask _ := by
    rw [sources_enter, cache_enter]
    exact ⟨htask.sources.insert htask.text, htask.cache, .empty, rfl⟩
  agrees h other hother htask hdone := by
    rw [hother.1, hother.2.2]
    exact h htask hdone
  effect {task st run done} h nested t rest _ effect _ hplain htask hdone := by
    obtain ⟨-, hst, hcache, hsources⟩ :=
      frame_applyEffect env nested task.chain task.file task.text st run hplain
    rw [hst, hcache, hsources]
    exact h htask hdone
  refused {task st run done} h spec located found after hlocated problem htask hdone := by
    obtain ⟨hgenuine, hcache, hforeign, hrun⟩ :=
      h htask fun i hi => hdone i (List.mem_append_left _ hi)
    rcases hlocated with hlocated | ⟨-, rfl⟩
    · have hsources := sources_locate env spec task.file run
      rw [hlocated] at hsources
      rw [hsources]
      exact ⟨hgenuine, hcache.locate hlocated, hforeign, hrun⟩
    · exact ⟨hgenuine, hcache, hforeign, hrun⟩
  cached {task st run done} h spec path found hlocated hchain file hfile after hafter htask
      hdone := by
    obtain ⟨hgenuine, hcache, hforeign, hrun⟩ :=
      h htask fun i hi => hdone i (List.mem_append_left _ hi)
    have hsources := sources_locate env spec task.file run
    rw [hlocated] at hsources
    have hfound := hcache.locate hlocated
    have hadded := hfound path file hfile
    subst hafter
    rw [hsources]
    exact ⟨hgenuine.merge hadded, hfound, hforeign.merge hadded, by
      rw [hrun]; exact Sources.merge_assoc _ _ _⟩
  processed {task st run done} h spec path found hlocated text htext file left inner hfile after
      hafter htask hdone := by
    obtain ⟨hgenuine, hcache, hforeign, hrun⟩ :=
      h htask fun i hi => hdone i (List.mem_append_left _ hi)
    have hsources := sources_locate env spec task.file run
    rw [hlocated] at hsources
    have hname : path.text ≠ document := hdone _ (List.mem_append_right _ List.mem_cons_self) path rfl
    have hread := (unread_eq_some env htext).2.2.1
    have hgenuine' : Genuine env document found.sources := hsources ▸ hgenuine
    have hfound := hcache.locate hlocated
    obtain ⟨hleft, hleftCache, hadded, hmerge⟩ :=
      hfile ⟨hgenuine', hfound, fun _ => hread⟩
        (fun i hi => hdone i (List.mem_append_right _ (List.mem_cons_of_mem _ hi))) hname
    subst hafter
    refine ⟨hleft, hleftCache.insert path hadded, hforeign.merge hadded, ?_⟩
    calc left.sources
      _ = found.sources.merge file.sources := hmerge
      _ = ((task.start.sources.insert task.file task.text).merge st.sources).merge file.sources := by
        rw [← hrun, ← hsources]
      _ = _ := Sources.merge_assoc _ _ _
  leave {task st run done} h htask hdone hname := by
    obtain ⟨hgenuine, hcache, hforeign, hrun⟩ := h htask hdone
    refine ⟨hgenuine, hcache, hforeign.insert hname (htask.text hname), hrun.trans ?_⟩
    refine Sources.insert_merge (fun old hold => ?_) _
    exact Except.ok.inj ((htask.sources _ _ hold hname).symm.trans (htask.text hname))

end Preprocess

end HdlIndex
