import HdlIndex.Outline.Origin
import HdlIndex.Proofs.Preprocess.ChangeLog
import HdlIndex.Proofs.Preprocess.Course
import HdlIndex.Proofs.Preprocess.Provenance
import HdlIndex.Proofs.Sources
import HdlIndex.Session

/-! The files that contribute tokens to a document, and the texts that are kept of them. A token of an
expansion stands in the file of its definition, which need not be a file that is included. -/

namespace HdlIndex

open Expansion (From OriginIn)

/-! ### Streams -/

namespace TokenStream

/-- A stream whose tokens come from files of which something is known. -/
def Within (known : String → Prop) (s : TokenStream) : Prop := ∀ run ∈ s.runs, known run.file

theorem mem_beginRun {runs : Array OriginRun} {file : String} {start : Nat} {run : OriginRun}
    (h : run ∈ beginRun runs file start) : run = ⟨file, start⟩ ∨ run ∈ runs := by
  unfold beginRun at h
  split at h
  · split at h
    · refine (Array.mem_push.1 h).symm.imp_right fun hpop => ?_
      rw [← Array.mem_toList_iff, Array.toList_pop] at hpop
      exact Array.mem_toList_iff.1 (List.dropLast_subset _ hpop)
    · exact (Array.mem_push.1 h).symm
  · exact (Array.mem_push.1 h).symm

end TokenStream

namespace Emitter

open TokenStream

variable {known : String → Prop} {e : Emitter}

theorem within_push {file : String} (hfile : known file) (h : e.stream.Within known)
    (token : PostToken) : (e.push file token).stream.Within known := by
  intro run hrun
  unfold push at hrun
  dsimp only at hrun
  split at hrun
  · exact h run hrun
  · rcases mem_beginRun hrun with rfl | hrun
    · exact hfile
    · exact h run hrun

theorem within_append (h : e.stream.Within known) {s : TokenStream} (hs : s.Within known) :
    (e.append s).stream.Within known := by
  unfold append
  split
  · exact h
  · show ∀ run ∈ s.runs.foldl _ e.stream.runs, known run.file
    rw [← Array.foldl_toList]
    refine List.foldlRecOn (motive := fun runs : Array OriginRun => ∀ run ∈ runs, known run.file)
      _ _ h fun runs hruns added hadded run hrun => ?_
    rcases mem_beginRun hrun with rfl | hrun
    · exact hs added (Array.mem_toList_iff.1 hadded)
    · exact hruns run hrun

end Emitter

namespace Preprocess

theorem within_emitExpansion {known : String → Prop} {out : Emitter}
    (h : out.stream.Within known) {tokens : List Lexeme} (htokens : From known tokens) :
    (emitExpansion out tokens).stream.Within known := by
  have hpushed := List.foldlRecOn (motive := fun out : Emitter => out.stream.Within known) tokens
    (fun out t => out.push t.file ⟨t.text, t.start, t.stop⟩) (b := out.split) h
    fun out hout t ht => Emitter.within_push (htokens t ht) hout _
  exact hpushed

/-- What an item defines is defined in its own file, and what it expands is its own invocation. -/
def Effect.StandsAt (env : Expansion.Env) (t : Lexeme) (rest : List Lexeme) : Effect → Prop
  | .define d => d.origin = some t.file
  | .expansion tokens => tokens = (Expansion.expandInvocation env t rest).1
  | _ => True

section Items

variable (env : Expansion.Env) (t : Lexeme) (rest : List Lexeme)

theorem standsAt_define : Effect.StandsAt env t rest (Item.define t rest).effect := by
  unfold Item.define
  split
  · trivial
  · split
    · trivial
    · rfl

theorem standsAt_read (conditions : List Bool) :
    Effect.StandsAt env t rest (Item.read env conditions t rest).effect := by
  rcases Item.effect_read env conditions t rest with h | h | h | h
  · rw [h]
    trivial
  · rw [h]
    exact standsAt_define env t rest
  · rw [h]
    rfl
  · generalize (Item.read env conditions t rest).effect = effect at h
    cases effect with
    | define | expansion => exact h.elim
    | _ => trivial

end Items

end Preprocess

namespace MacroTable

theorem mem_replay {t : MacroTable} {log : MacroLog} {d : MacroDef}
    (h : d ∈ (t.replay log).entries) : d ∈ t.entries ∨ .add d ∈ log := by
  induction log generalizing t with
  | nil => exact .inl h
  | cons change log ih =>
    rcases ih h with h | h
    · cases change with
      | add definition =>
        rcases List.mem_append.1 h with h | h
        · exact .inl (List.mem_filter.1 h).1
        · cases List.mem_singleton.1 h
          exact .inr List.mem_cons_self
      | delete name => exact .inl (List.mem_filter.1 h).1
      | deleteAll => cases h
    · exact .inr (List.mem_cons_of_mem _ h)

end MacroTable

namespace Preprocess

/-! ### Definitions and their files -/

/-- An included file whose sources have the files of all its definitions. -/
def NamesOrigins (file : IncludedFile) : Prop :=
  ∀ d, .add d ∈ file.log → OriginIn file.sources.Has d

/-- A cache of such files. -/
def Attributed (cache : IncludeCache) : Prop :=
  ∀ path file, cache.get? path = some file → NamesOrigins file

/-- Sources that have the files of all definitions in force, and those of the tokens of every file in
the cache, as far as that file does not have them itself. -/
structure Covers (cache : IncludeCache) (macros : MacroTable) (sources : Sources) : Prop where
  macros : ∀ d ∈ macros.entries, OriginIn sources.Has d
  cache : ∀ path file, cache.get? path = some file →
    file.stream.Within fun f => sources.Has f ∨ file.sources.Has f

theorem Covers.grow {cache : IncludeCache} {macros : MacroTable} {sources more : Sources}
    (h : Covers cache macros sources) (hmore : ∀ f, sources.Has f → more.Has f) :
    Covers cache macros more where
  macros d hd f hf := hmore f (h.macros d hd f hf)
  cache path file hfile run hrun := (h.cache path file hfile run hrun).imp_left (hmore _)

/-- While a file is processed, its log keeps to the files that it has sources of; and if the run had
the sources of everything that it names at first, it has those of all that is written. -/
def Contributing (task : Task) (st : FileState) (run : RunState) : Prop :=
  Attributed task.start.cache →
    Attributed run.cache ∧
    (∀ d, .add d ∈ st.log → OriginIn (fun f => f = task.file ∨ st.sources.Has f) d) ∧
    (Covers task.start.cache task.start.macros task.start.sources →
      Covers run.cache run.macros run.sources ∧ run.sources.Has task.file ∧
      (∀ f, task.start.sources.Has f → run.sources.Has f) ∧ st.out.stream.Within run.sources.Has)

/-- The same of a file that has been processed. -/
def Contributed (task : Task) (file : IncludedFile) (run : RunState) : Prop :=
  Attributed task.start.cache →
    Attributed run.cache ∧ NamesOrigins file ∧
    (Covers task.start.cache task.start.macros task.start.sources →
      Covers run.cache run.macros run.sources ∧
      (∀ f, task.start.sources.Has f → run.sources.Has f) ∧ file.stream.Within run.sources.Has)

theorem file_of_mem_lex {file text : String} {t : Lexeme} (h : t ∈ Lexeme.lex file text) :
    t.file = file := by
  obtain ⟨_, -, rfl⟩ := List.mem_map.1 h
  rfl

/-- An edit that deletes adds no definition. -/
theorem mem_log_of_delete {log : MacroLog} {change : MacroChange} (h : ∀ d, change ≠ .add d)
    {d : MacroDef} (hd : .add d ∈ log ++ [change]) : .add d ∈ log := by
  rcases List.mem_append.1 hd with hd | hd
  · exact hd
  · exact absurd (List.mem_singleton.1 hd).symm (h d)

theorem Contributing.effect {env : Env} {task : Task} {st : FileState} {run : RunState}
    (h : Contributing task st run) (nested : Option Process) {t : Lexeme} {rest : List Lexeme}
    (ht : t :: rest <:+ Lexeme.lex task.file task.text) {effect : Effect}
    (heffect :
      effect = (Item.read (run.expansionEnv env.options.limits) st.conditions t rest).effect)
    (hplain : ∀ spec offset, effect ≠ .inclusion spec offset) :
    Contributing task (applyEffect env nested task.chain task.file task.text st run effect).1
      (applyEffect env nested task.chain task.file task.text st run effect).2 := by
  intro hstart
  obtain ⟨hcache, hlog, hcovers⟩ := h hstart
  have hfile : ∀ u ∈ t :: rest, u.file = task.file := fun u hu =>
    file_of_mem_lex (ht.subset hu)
  have hread := standsAt_read (run.expansionEnv env.options.limits) t rest st.conditions
  rw [← heffect] at hread
  cases effect with
  | nothing => exact ⟨hcache, hlog, hcovers⟩
  | emit u =>
    refine ⟨hcache, hlog, fun h => ?_⟩
    obtain ⟨hrun, hown, hgrow, hout⟩ := hcovers h
    exact ⟨hrun, hown, hgrow, Emitter.within_push hown hout _⟩
  | expansion tokens =>
    refine ⟨hcache, hlog, fun h => ?_⟩
    obtain ⟨hrun, hown, hgrow, hout⟩ := hcovers h
    have htokens : From run.sources.Has (t :: rest) := fun u hu => (hfile u hu).symm ▸ hown
    obtain ⟨hcall, hrest⟩ := List.forall_mem_cons.1 htokens
    cases hread
    exact ⟨hrun, hown, hgrow,
      within_emitExpansion hout (Expansion.from_expandInvocation hrun.macros hcall hrest)⟩
  | conditions taken => exact ⟨hcache, hlog, hcovers⟩
  | define d =>
    have horigin : d.origin = some task.file := hread.trans (congrArg some (hfile t List.mem_cons_self))
    refine ⟨hcache, fun d' hd' => ?_, fun h => ?_⟩
    · rcases List.mem_append.1 hd' with hd' | hd'
      · rcases List.mem_append.1 hd' with hd' | hd'
        · exact hlog d' hd'
        · split at hd' <;> simp at hd'
      · cases List.mem_singleton.1 hd'
        intro f hf
        exact .inl (Option.some.inj (hf.symm.trans horigin))
    · obtain ⟨hrun, hown, hgrow, hout⟩ := hcovers h
      refine ⟨⟨fun d' hd' => ?_, hrun.cache⟩, hown, hgrow, hout⟩
      rcases List.mem_append.1 hd' with hd' | hd'
      · exact hrun.macros d' (List.mem_filter.1 hd').1
      · cases List.mem_singleton.1 hd'
        intro f hf
        exact Option.some.inj (hf.symm.trans horigin) ▸ hown
  | undef name =>
    refine ⟨hcache, fun d hd => hlog d (mem_log_of_delete (by simp) hd), fun h => ?_⟩
    obtain ⟨hrun, hown, hgrow, hout⟩ := hcovers h
    exact ⟨⟨fun d hd => hrun.macros d (List.mem_filter.1 hd).1, hrun.cache⟩, hown, hgrow, hout⟩
  | undefineAll =>
    refine ⟨hcache, fun d hd => hlog d (mem_log_of_delete (by simp) hd), fun h => ?_⟩
    obtain ⟨hrun, hown, hgrow, hout⟩ := hcovers h
    exact ⟨⟨by simp [applyEffect, MacroTable.empty], hrun.cache⟩, hown, hgrow, hout⟩
  | inclusion spec offset => exact absurd rfl (hplain spec offset)

theorem Attributed.insert {cache : IncludeCache} (h : Attributed cache) (path : Path)
    {file : IncludedFile} (hfile : NamesOrigins file) : Attributed (cache.insert path file) := by
  intro p e he
  rw [IncludeCache.get?_insert] at he
  split at he
  · cases he
    exact hfile
  · exact h p e he

/-- To look for a file changes nothing that is kept of files. -/
theorem Contributing.locate {env : Env} {task : Task} {st : FileState} {run found : RunState}
    (h : Contributing task st run) {spec : String} {located : Option Path}
    (hlocated : Preprocess.locate env spec task.file run = (located, found)) :
    Contributing task st found := by
  have hcache := cache_locate_get? env spec task.file run
  have hmacros := macros_locate env spec task.file run
  have hsources := sources_locate env spec task.file run
  rw [hlocated] at hcache hmacros hsources
  intro hstart
  obtain ⟨hrun, hlog, hcovers⟩ := h hstart
  rw [hmacros, hsources]
  refine ⟨fun p e he => hrun p e (hcache p ▸ he), hlog, fun h => ?_⟩
  obtain ⟨hcovers, hrest⟩ := hcovers h
  exact ⟨⟨hcovers.macros, fun p e he => hcovers.cache p e (hcache p ▸ he)⟩, hrest⟩

theorem log_splice {st : FileState} {path : Path} {file : IncludedFile}
    {own : String}
    (hlog : ∀ d, .add d ∈ st.log → OriginIn (fun f => f = own ∨ st.sources.Has f) d)
    (hfile : NamesOrigins file) :
    ∀ d, .add d ∈ (st.splice path file).log →
      OriginIn (fun f => f = own ∨ (st.splice path file).sources.Has f) d := by
  intro d hd f hf
  rcases List.mem_append.1 hd with hd | hd
  · exact (hlog d hd f hf).imp_right fun h => Sources.has_merge.2 (.inl h)
  · exact .inr (Sources.has_merge.2 (.inr (hfile d hd f hf)))

theorem invariant_contributing (env : Env) :
    Invariant env (fun task st run _ => Contributing task st run)
      (fun task file run _ => Contributed task file run) where
  enter task hstart := by
    rw [cache_enter, macros_enter, sources_enter]
    refine ⟨hstart, by simp, fun h => ⟨h.grow fun f hf => Sources.has_insert.2 (.inr hf),
      Sources.has_insert.2 (.inl rfl), fun f hf => Sources.has_insert.2 (.inr hf), ?_⟩⟩
    intro run hrun
    cases Array.mem_toList_iff.2 hrun
  agrees {task st run done} h other hother hstart := by
    obtain ⟨hcache, hmacros, hsources⟩ := hother
    rw [hcache, hmacros, hsources]
    exact h hstart
  effect h nested _ _ ht _ heffect hplain := h.effect nested ht heffect hplain
  refused {task st run done} h spec located found after hlocated problem := by
    rcases hlocated with hlocated | ⟨-, rfl⟩
    · exact h.locate hlocated
    · exact h
  cached {task st run done} h spec path found hlocated hchain file hfile after hafter hstart := by
    obtain ⟨hcache, hlog, hcovers⟩ := h.locate hlocated hstart
    have horigins := hcache path file hfile
    subst hafter
    refine ⟨hcache, log_splice hlog horigins, fun h => ?_⟩
    obtain ⟨hfound, hown, hgrow, hout⟩ := hcovers h
    have hmerge : ∀ f, found.sources.Has f → (found.sources.merge file.sources).Has f := fun f hf =>
      Sources.has_merge.2 (.inl hf)
    refine ⟨⟨fun d hd f hf => ?_, (hfound.grow hmerge).cache⟩, hmerge _ hown,
      fun f hf => hmerge f (hgrow f hf),
      Emitter.within_append (fun run hrun => hmerge _ (hout run hrun)) fun run hrun => ?_⟩
    · rcases MacroTable.mem_replay hd with hd | hd
      · exact hmerge f (hfound.macros d hd f hf)
      · exact Sources.has_merge.2 (.inr (horigins d hd f hf))
    · exact Sources.has_merge.2 (hfound.cache path file hfile run hrun)
  processed {task st run done} h spec path found hlocated text htext file left inner hfile after
      hafter hstart := by
    obtain ⟨hcache, hlog, hcovers⟩ := h.locate hlocated hstart
    obtain ⟨hleft, horigins, hcovered⟩ := hfile hcache
    subst hafter
    refine ⟨hleft.insert path horigins, log_splice hlog horigins, fun h => ?_⟩
    obtain ⟨hfound, hown, hgrow, hout⟩ := hcovers h
    obtain ⟨hleft, hlater, hstream⟩ := hcovered hfound
    refine ⟨⟨hleft.macros, fun p e he => ?_⟩, hlater _ hown, fun f hf => hlater f (hgrow f hf),
      Emitter.within_append (fun run hrun => hlater _ (hout run hrun)) hstream⟩
    rw [IncludeCache.get?_insert] at he
    split at he
    · cases he
      exact fun run hrun => .inl (hstream run hrun)
    · exact hleft.cache p e he
  leave {task st run done} h hstart := by
    obtain ⟨hcache, hlog, hcovers⟩ := h hstart
    refine ⟨hcache, fun d hd f hf => Sources.has_insert.2 (hlog d hd f hf), fun h => ?_⟩
    obtain ⟨hrun, -, hgrow, hout⟩ := hcovers h
    exact ⟨hrun, hgrow, hout⟩

/-! ### Documents -/

theorem attributed_document (env : Env) {cache : IncludeCache} (h : Attributed cache)
    (file text : String) : Attributed (document env cache file text).2.cache := by
  by_cases hsize : env.options.limits.fileSize < text.utf8ByteSize
  · simp only [document, if_pos hsize]
    exact h
  · simp only [document, if_neg hsize]
    exact ((invariant_contributing env).process _ _ _ _ (startState env cache) h).1

/-- A definition that is given from outside stands in no file. -/
theorem originIn_ofDefines (known : String → Prop) (defines : List (String × String)) :
    ∀ d ∈ (MacroTable.ofDefines defines).entries, OriginIn known d := by
  refine List.foldlRecOn (motive := fun t : MacroTable => ∀ d ∈ t.entries, OriginIn known d)
    _ _ (by simp [MacroTable.empty]) fun t ht define _ d hd => ?_
  rcases List.mem_append.1 hd with hd | hd
  · exact ht d (List.mem_filter.1 hd).1
  · cases List.mem_singleton.1 hd
    intro f hf
    cases hf

theorem within_document (env : Env) {cache : IncludeCache} (hcache : Attributed cache)
    (hcontained : ∀ path file, cache.get? path = some file → file.stream.Within file.sources.Has)
    (file text : String) :
    (document env cache file text).1.stream.Within (document env cache file text).1.sources.Has := by
  by_cases hsize : env.options.limits.fileSize < text.utf8ByteSize
  · simp only [document, if_pos hsize]
    intro run hrun
    cases Array.mem_toList_iff.2 hrun
  · simp only [document, if_neg hsize]
    refine (((invariant_contributing env).process _ _ _ _ (startState env cache) hcache).2.2
      ⟨originIn_ofDefines _ _, fun path file hfile run hrun => .inr ?_⟩).2.2
    exact hcontained path file hfile run hrun

end Preprocess

/-! ### Segments -/

namespace Origins

/-- A segment comes from a file that contributes tokens. -/
theorem known_segments {known : String → Prop} {o : Origins} (h : o.stream.Within known)
    (start stop : Nat) : ∀ s ∈ o.segments start stop, known s.file := by
  have hadd : ∀ segments : List Segment, (∀ s ∈ segments, known s.file) → ∀ index,
      ∀ s ∈ o.addToken segments index, known s.file := by
    intro segments hsegments index
    unfold addToken
    split
    · split
      · next token run _ _ origin horigin =>
        have hfile : known origin.file := h origin (Array.mem_of_getElem? horigin)
        unfold Segment.add
        split
        · simpa using hfile
        · next s rest =>
          obtain ⟨hs, hrest⟩ := List.forall_mem_cons.1 hsegments
          split
          · exact List.forall_mem_cons.2 ⟨hs, hrest⟩
          · exact List.forall_mem_cons.2 ⟨hfile, hsegments⟩
      · exact hsegments
    · exact hsegments
  unfold segments
  split
  · intro s hs
    refine List.foldlRecOn (motive := fun segments : List Segment => ∀ s ∈ segments, known s.file)
      _ _ (by simp) (fun segments hsegments index _ => hadd segments hsegments index) s
      (List.mem_reverse.1 hs)
  · simp

end Origins

namespace Session

/-- The session after documents were processed in it, one after another. -/
def afterAll (s : Session) (documents : List (String × String)) : Session :=
  documents.foldl (fun s d => (s.preprocess d.1 d.2).2) s

/-- What each document preserves of the cache, a session preserves. -/
theorem cache_afterAll {P : IncludeCache → Prop} {s : Session}
    (hdocument : ∀ cache file text, P cache → P (Preprocess.document s.env cache file text).2.cache)
    (h : P s.cache) (documents : List (String × String)) : P (s.afterAll documents).cache := by
  induction documents generalizing s with
  | nil => exact h
  | cons d documents ih => exact ih hdocument (hdocument s.cache d.1 d.2 h)

theorem attributed_afterAll {s : Session} (h : Preprocess.Attributed s.cache)
    (documents : List (String × String)) : Preprocess.Attributed (s.afterAll documents).cache :=
  cache_afterAll (P := Preprocess.Attributed)
    (fun _ file text h => Preprocess.attributed_document s.env h file text) h documents

/-- In a session in which no included file contributes tokens of a file without its text, all files
that contribute tokens to a document are among its sources, and every token is traced back to a
range of its file. The first document of a session has nothing to ask for. -/
theorem sources_have_contributors (options : Options) (provider : Provider)
    (documents : List (String × String))
    (hcontained : ∀ path file,
      (afterAll { options, provider } documents).cache.get? path = some file →
        file.stream.Within file.sources.Has) (file text : String) :
    let p := ((afterAll { options, provider } documents).preprocess file text).1
    p.stream.Within p.sources.Has ∧
      ∀ start stop, ∀ s ∈ (Origins.ofPreprocessed p).segments start stop,
        ∃ source, p.sources.get? s.file = some source ∧
          (Origins.ofPreprocessed p).range s = Text.range source s.start s.stop := by
  have hattributed : Preprocess.Attributed IncludeCache.empty := by simp [Preprocess.Attributed]
  have hwithin := Preprocess.within_document (afterAll { options, provider } documents).env
    (attributed_afterAll hattributed documents) hcontained file text
  refine ⟨hwithin, fun start stop s hs => ?_⟩
  obtain ⟨source, hsource⟩ :=
    Option.isSome_iff_exists.1 (Origins.known_segments hwithin start stop s hs)
  refine ⟨source, hsource, ?_⟩
  have hrange : (Origins.ofPreprocessed
      ((afterAll { options, provider } documents).preprocess file text).1).sources.get? s.file =
        some source := hsource
  simp only [Origins.range, hrange]

/-- A session with two files to include, one of which needs a definition. -/
def sharing : Session where
  options := {}
  provider := (Files.ofList [(⟨"/g"⟩, "y"), (⟨"/h"⟩, "`M")]).provider

set_option maxRecDepth 100000 in
theorem contained_sharing :
    (sharing.afterAll [("/a", "`define M x\n`M`include </g>")]).cache.entries.all
      (fun e => e.2.stream.runs.toList.all fun run => (e.2.sources.get? run.file).isSome) := by
  decide +kernel

/-- Both documents include a file that needs no definitions. -/
theorem sources_have_contributors_sharing :
    let p := ((sharing.afterAll [("/a", "`define M x\n`M`include </g>")]).preprocess "/b"
      "`include </g>").1
    p.stream.Within p.sources.Has := by
  refine (sources_have_contributors {} _ _ ?_ "/b" "`include </g>").1
  intro path file hfile run hrun
  obtain ⟨p, hentry⟩ := IncludeCache.mem_of_get? hfile
  have hruns := List.all_eq_true.1 contained_sharing _ hentry
  exact List.all_eq_true.1 hruns run (Array.mem_toList_iff.2 hrun)

set_option maxRecDepth 100000 in
/-- A file that is taken from the cache may contribute tokens of a definition that the first document
made, and the text of that document is not among the sources of the second. -/
theorem contributor_without_source :
    let p := ((sharing.afterAll [("/a", "`define M x\n`include </h>")]).preprocess "/b"
      "`include </h>").1
    p.stream.runs.toList = [⟨"/a", 0⟩] ∧ p.sources.files = ["/b", "/h"] ∧
      (Origins.ofPreprocessed p).segments 0 1 = [⟨"/a", 10, 11, 0⟩] ∧
      (Origins.ofPreprocessed p).range ⟨"/a", 10, 11, 0⟩ = .zero := by
  decide +kernel

end Session

end HdlIndex
