import HdlIndex.Proofs.Preprocess.Execution
import HdlIndex.Session

/-! Files are loaded once. A file that was read with success is in the cache as soon as it has been
processed, stays there, and while it is being processed every include of it is cut off; so no request
to a session reads it again. Failed reads and files that are too large are not kept, and may be asked
for any number of times. -/

namespace HdlIndex

namespace IncludeCache

/-- One cache becomes another by gaining these files: all of them different, and each neither in
progress nor known before, and known behind. -/
structure Gains (chain : List Path) (before after : IncludeCache) (paths : List Path) : Prop where
  grows : ∀ p, (before.get? p).isSome → (after.get? p).isSome
  apart : paths.Pairwise fun p q => ¬p.same q
  idle : ∀ p ∈ paths, ¬chain.any (·.same p)
  fresh : ∀ p ∈ paths, before.get? p = none
  kept : ∀ p ∈ paths, (after.get? p).isSome

namespace Gains

variable {chain : List Path} {before mid after : IncludeCache} {paths more : List Path}

theorem of_get? (h : ∀ p, after.get? p = before.get? p) : Gains chain before after [] :=
  ⟨fun p hp => by rwa [h], .nil, by simp, by simp, by simp⟩

theorem trans (h : Gains chain before mid paths) (h' : Gains chain mid after more) :
    Gains chain before after (paths ++ more) where
  grows p hp := h'.grows p (h.grows p hp)
  apart := by
    refine List.pairwise_append.2 ⟨h.apart, h'.apart, fun p hp q hq hsame => ?_⟩
    -- What was gained first is known by now, and what is gained later is not.
    have hkept := h.kept p hp
    rw [get?_of_same _ hsame, h'.fresh q hq] at hkept
    cases hkept
  idle := List.forall_mem_append.2 ⟨h.idle, h'.idle⟩
  fresh := by
    refine List.forall_mem_append.2 ⟨h.fresh, fun p hp => ?_⟩
    refine Option.eq_none_iff_forall_ne_some.2 fun file hfile => ?_
    have hgrown := h.grows p (by rw [hfile]; rfl)
    rw [h'.fresh p hp] at hgrown
    cases hgrown
  kept := List.forall_mem_append.2 ⟨fun p hp => h'.grows p (h.kept p hp), h'.kept⟩

/-- A file is kept behind those that were gained while it was in progress. -/
theorem insert {path : Path} (h : Gains (path :: chain) before mid paths)
    (hchain : ¬chain.any (·.same path)) (hpath : before.get? path = none) (file : IncludedFile) :
    Gains chain before (mid.insert path file) (path :: paths) := by
  have hkeep (p : Path) (hp : (mid.get? p).isSome) : ((mid.insert path file).get? p).isSome := by
    rw [get?_insert]
    split
    · rfl
    · exact hp
  refine ⟨fun p hp => hkeep p (h.grows p hp), List.pairwise_cons.2 ⟨fun p hp hsame => ?_, h.apart⟩,
    List.forall_mem_cons.2 ⟨hchain, fun p hp hp' => ?_⟩, List.forall_mem_cons.2 ⟨hpath, h.fresh⟩,
    List.forall_mem_cons.2 ⟨by simp [get?_insert], fun p hp => hkeep p (h.kept p hp)⟩⟩
  · exact h.idle p hp (by simp [hsame])
  · exact h.idle p hp (by simp [hp'])

end Gains

end IncludeCache

namespace Preprocess

/-- Whether a file can be read and is not too large. -/
def Env.loads (env : Env) (path : Path) : Bool :=
  match env.provider.read path with
  | .ok text => text.utf8ByteSize ≤ env.options.limits.fileSize
  | .error _ => false

/-- The files that were read with success, in order. -/
def Env.loaded (env : Env) (accesses : List Access) : List Path :=
  accesses.filterMap fun
    | .read path => if env.loads path then some path else none
    | .looked _ => none

section Loaded

variable {env : Env}

@[simp]
theorem loaded_append (a b : List Access) : env.loaded (a ++ b) = env.loaded a ++ env.loaded b :=
  List.filterMap_append

@[simp]
theorem loaded_looked (paths : List Path) : env.loaded (paths.map .looked) = [] := by
  simp [Env.loaded]

theorem loaded_read {path : Path} (h : env.loads path) (asked : List Access) :
    env.loaded (.read path :: asked) = path :: env.loaded asked := by
  simp [Env.loaded, h]

theorem loaded_read_failed {path : Path} (h : ¬env.loads path) : env.loaded [.read path] = [] := by
  simp [Env.loaded, h]

end Loaded

/-- Between two states of a run these questions are asked, and the files that are loaded on the way
are gained. -/
structure LoadsNew (env : Env) (chain : List Path) (run final : RunState) (asked : List Access) :
    Prop where
  accesses : final.accesses = run.accesses ++ asked
  gains : run.cache.Gains chain final.cache (env.loaded asked)

namespace LoadsNew

variable {env : Env} {chain : List Path} {run mid final : RunState} {asked more : List Access}

/-- A step that loads nothing. -/
theorem quiet (haccesses : final.accesses = run.accesses ++ asked)
    (hcache : ∀ p, final.cache.get? p = run.cache.get? p) (hasked : env.loaded asked = []) :
    LoadsNew env chain run final asked :=
  ⟨haccesses, hasked ▸ .of_get? hcache⟩

theorem trans (h : LoadsNew env chain run mid asked) (h' : LoadsNew env chain mid final more) :
    LoadsNew env chain run final (asked ++ more) where
  accesses := by rw [h'.accesses, h.accesses, List.append_assoc]
  gains := by
    rw [loaded_append]
    exact h.gains.trans h'.gains

/-- A file that is loaded, processed and then kept. -/
theorem processed {path : Path} {text : String} (htext : unread env chain path run = some text)
    (h : LoadsNew env (path :: chain) (run.reading path) mid asked) (file : IncludedFile) :
    LoadsNew env chain run (mid.store path file) (.read path :: asked) := by
  obtain ⟨hchain, hcache, hread, hsize⟩ := unread_eq_some env htext
  have hloads : env.loads path := by simpa [Env.loads, hread] using hsize
  refine ⟨?_, ?_⟩
  · rw [RunState.store, h.accesses, RunState.reading, List.append_assoc, List.singleton_append]
  · rw [loaded_read hloads]
    exact h.gains.insert hchain hcache file

end LoadsNew

/-! ### Steps that load nothing -/

section Quiet

variable {env : Env} {chain : List Path}

theorem accesses_applyEffect_of_plain (env : Env) (chain : List Path) (file text : String)
    (st : FileState) (run : RunState) {effect : Effect}
    (h : ∀ spec offset, effect ≠ .inclusion spec offset) :
    (applyEffect env none chain file text st run effect).2.accesses = run.accesses := by
  cases effect with
  | inclusion spec offset => exact absurd rfl (h spec offset)
  | _ => rfl

theorem accesses_enter (run : RunState) (file text : String) :
    (run.enter file text).accesses = run.accesses := by
  unfold RunState.enter
  split <;> rfl

theorem loadsNew_noting (run : RunState) (diagnostics : List Diagnostic) :
    LoadsNew env chain run (run.noting diagnostics) [] :=
  .quiet (List.append_nil _).symm (fun _ => rfl) rfl

theorem loadsNew_close (run : RunState) (file : String) (conditions : List Bool) :
    LoadsNew env chain run (run.close file conditions) [] := by
  unfold RunState.close
  split <;> exact .quiet (by simp [RunState.report]) (fun _ => rfl) rfl

/-- Looking for a file asks whether there are files, and reads none. -/
theorem loadsNew_locate (chain : List Path) {spec file : String} {run found : RunState}
    {located : Option Path} (h : locate env spec file run = (located, found)) :
    ∃ asked, LoadsNew env chain run found asked := by
  have hcache := cache_locate_get? env spec file run
  rw [h] at hcache
  unfold locate at h
  split at h
  · cases h
    exact ⟨[], .quiet (by simp) (fun _ => rfl) rfl⟩
  · refine ⟨(candidates env.options ⟨spec⟩ file).map .looked, .quiet ?_ hcache (loaded_looked _)⟩
    split at h <;> cases h <;> rfl

theorem loadsNew_refused (chain : List Path) {site : Site} {spec : String} {run after : RunState}
    {problem : Problem} (h : Refuses env site spec run problem after) :
    ∃ asked, LoadsNew env chain run after asked := by
  cases h with
  | tooDeep => exact ⟨[], .quiet (by simp) (fun _ => rfl) rfl⟩
  | unresolved _ hlocated => exact loadsNew_locate chain hlocated
  | cycle _ hlocated => exact loadsNew_locate chain hlocated
  | @unreadable _ _ path _ hlocated _ _ _ hread =>
    obtain ⟨asked, hfound⟩ := loadsNew_locate chain hlocated
    have hloads : ¬env.loads path := by simp [Env.loads, hread]
    exact ⟨_, hfound.trans (.quiet rfl (fun _ => rfl) (loaded_read_failed hloads))⟩
  | @tooLarge _ _ path _ hlocated _ _ _ hread hsize =>
    obtain ⟨asked, hfound⟩ := loadsNew_locate chain hlocated
    have hloads : ¬env.loads path := by simpa [Env.loads, hread] using hsize
    exact ⟨_, hfound.trans (.quiet rfl (fun _ => rfl) (loaded_read_failed hloads))⟩

end Quiet

/-! ### Runs -/

theorem Reads.loadsNew {env : Env} {site : Site} {st last : FileState} {run final : RunState}
    {tokens invoked : List Lexeme} (h : Reads env site st run tokens last final invoked) :
    ∃ asked, LoadsNew env site.chain run final asked := by
  induction h with
  | finish site st run => exact ⟨[], loadsNew_close run site.file st.conditions⟩
  | @plain site st next last run after final t rest invoked _ item _ hplain happly _ ih =>
    obtain ⟨asked, hrest⟩ := ih
    have haccesses := accesses_applyEffect_of_plain env site.chain site.file site.text st
      (run.noting item.diagnostics) hplain
    obtain ⟨-, -, hcache, -⟩ := frame_applyEffect env none site.chain site.file site.text st
      (run.noting item.diagnostics) hplain
    rw [happly] at haccesses hcache
    have hstep : LoadsNew env site.chain run after [] :=
      .quiet (by rw [haccesses, List.append_nil]; rfl) (fun p => by rw [hcache]; rfl) rfl
    exact ⟨_, hstep.trans hrest⟩
  | @refused site st last run after final t rest invoked item _ spec offset _ problem hrefused _ ih =>
    obtain ⟨asked, hrest⟩ := ih
    obtain ⟨before, hstep⟩ := loadsNew_refused site.chain hrefused
    exact ⟨_, (((loadsNew_noting run _).trans hstep).trans (loadsNew_noting after _)).trans hrest⟩
  | @cached site st last run found final t rest invoked item _ spec offset _ depth _ path hlocated _
      file _ _ ih =>
    obtain ⟨asked, hrest⟩ := ih
    obtain ⟨before, hstep⟩ := loadsNew_locate site.chain hlocated
    have hadopted : LoadsNew env site.chain found (found.adopt file) [] :=
      .quiet (by simp [RunState.adopt]) (fun _ => rfl) rfl
    exact ⟨_, (((loadsNew_noting run _).trans hstep).trans hadopted).trans hrest⟩
  | @processed site st inner last run found left final t rest within invoked item _ spec offset _
      depth _ path hlocated text htext _ _ ihinner ih =>
    obtain ⟨asked, hrest⟩ := ih
    obtain ⟨before, hstep⟩ := loadsNew_locate site.chain hlocated
    obtain ⟨inside, hinner⟩ := ihinner
    have hentered : LoadsNew env (path :: site.chain) (found.reading path)
        ((found.reading path).enter path.text text) [] :=
      .quiet (by simp [accesses_enter]) (fun p => by rw [cache_enter]) rfl
    have hfile := LoadsNew.processed htext (hentered.trans hinner) (inner.contents path.text text)
    exact ⟨_, (((loadsNew_noting run _).trans hstep).trans hfile).trans hrest⟩

/-- What a document loads is gained by the cache. -/
theorem gains_document (env : Env) (cache : IncludeCache) (file text : String) :
    cache.Gains [] (document env cache file text).2.cache
      (env.loaded (document env cache file text).2.accesses) := by
  by_cases hsize : env.options.limits.fileSize < text.utf8ByteSize
  · simp only [document, if_pos hsize]
    exact .of_get? fun _ => rfl
  · obtain ⟨last, final, hreads, hdocument⟩ := reads_document env cache hsize
    obtain ⟨asked, h⟩ := hreads.loadsNew
    have haccesses : final.accesses = asked := by
      rw [h.accesses, accesses_enter]
      rfl
    have hgains := h.gains
    rw [cache_enter] at hgains
    rw [hdocument, haccesses]
    exact { hgains with idle := by simp }

end Preprocess

/-! ### Sessions -/

/-- What can be asked of a session without forgetting what it knows. -/
inductive Request where
  | preprocess (file text : String)
  | outline (file text : String)
  | outlineInto (table : SymbolTable) (file text : String)
  /-- Files are added, changed or taken away. -/
  | update (provider : Provider)

namespace Session

def serve (s : Session) : Request → Session
  | .preprocess file text => (s.preprocess file text).2
  | .outline file text => (s.outline file text).2
  | .outlineInto table file text => (s.outlineInto table file text).2.2
  | .update provider => { s with provider }

def serveAll (s : Session) (requests : List Request) : Session := requests.foldl serve s

/-- The questions that a request asks. -/
def asked (s : Session) (request : Request) : List Access :=
  (s.serve request).accesses.drop s.accesses.length

/-- The files that are loaded for requests, in order. -/
def loads (s : Session) : List Request → List Path
  | [] => []
  | request :: requests => s.env.loaded (s.asked request) ++ (s.serve request).loads requests

theorem gains_serve (s : Session) (request : Request) :
    s.cache.Gains [] (s.serve request).cache (s.env.loaded (s.asked request)) := by
  cases request with
  | preprocess file text | outline file text | outlineInto table file text =>
    have hasked : (s.accesses ++ (Preprocess.document s.env s.cache file text).2.accesses).drop
        s.accesses.length = (Preprocess.document s.env s.cache file text).2.accesses :=
      List.drop_left
    simp only [asked, serve, outline, outlineInto, preprocess, hasked]
    exact Preprocess.gains_document s.env s.cache file text
  | update provider =>
    simp only [asked, serve, List.drop_length]
    exact .of_get? fun _ => rfl

theorem gains_serveAll (s : Session) (requests : List Request) :
    s.cache.Gains [] (s.serveAll requests).cache (s.loads requests) := by
  induction requests generalizing s with
  | nil => exact .of_get? fun _ => rfl
  | cons request requests ih => exact (s.gains_serve request).trans (ih (s.serve request))

/-- A file is loaded at most once in a session, whatever includes and documents lead to it and in
whatever order: the files that are loaded for requests are all different, none of them was known
before, and all of them are known behind. -/
theorem loads_once (s : Session) (requests : List Request) :
    (s.loads requests).Pairwise (fun p q => ¬p.same q) ∧
      ∀ p ∈ s.loads requests,
        s.cache.get? p = none ∧ ((s.serveAll requests).cache.get? p).isSome := by
  have hgains := s.gains_serveAll requests
  exact ⟨hgains.apart, fun p hp => ⟨hgains.fresh p hp, hgains.kept p hp⟩⟩

set_option maxRecDepth 100000 in
/-- The file includes itself, and the second document names it in another way. -/
example :
    let s : Session := { options := {}, provider := (Files.ofList [(⟨"/h"⟩, "`include </h>")]).provider }
    s.loads [.preprocess "/a" "`include </h>", .preprocess "/b" "`include <h>"] = [⟨"/h"⟩] := by
  decide +kernel

end Session

end HdlIndex
