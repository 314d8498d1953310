import HdlIndex.Proofs.Preprocess.Agreement
import HdlIndex.Proofs.Preprocess.Holdings
import HdlIndex.Proofs.Preprocess.Resolution

/-! A document that is processed with a cache, next to the same document without one. A file that
earlier documents have included is replayed, which may make a difference. `Independent` says when it
does not: texts of includes name the same files, and a file that was included before would be
processed to the same contents, with nothing to report. Main statement: the two runs then stay
abreast over the whole document, although one processes files that the other replays. -/

namespace HdlIndex

namespace Preprocess

/-- Whether an include names a file that an earlier one has opened, and that is not in progress. -/
def Inclusion.Repeats (j i : Inclusion) : Prop :=
  ∃ path other, i.opened = some path ∧ j.located = some other ∧ path.same other ∧
    ¬j.chain.any (·.same other)

/-- Whether two includes open files with contents that agree. -/
def Inclusion.Matches (j i : Inclusion) : Prop :=
  ∃ path file other again, i.result = .ok (path, file) ∧ j.result = .ok (other, again) ∧
    file.Agrees again

/-- The includes of a document, carried out without a cache, next to those of earlier documents: what
those have left in a cache makes no difference to it. -/
structure Independent (earlier : List Inclusion) (document : String) (own : List Inclusion) :
    Prop where
  /-- A text that has named a file is not left unresolved, and names the same file. -/
  texts {i j : Inclusion} (hi : i ∈ earlier) (hj : j ∈ own) (h : i.spec = j.spec) {path : Path}
    (hpath : i.located = some path) :
    j.result ≠ .error (.unresolvedInclude j.spec) ∧ ∀ other, j.located = some other → other = path
  /-- A file that was included has the same contents again. -/
  contents {i j : Inclusion} (hi : i ∈ earlier) (hj : j ∈ own) (h : j.Repeats i) : j.Matches i
  /-- There is nothing to report in it. -/
  quiet {i j : Inclusion} (hi : i ∈ earlier) (hj : j ∈ own) (h : j.Repeats i) :
    j.after.diagnostics = j.before.diagnostics
  /-- The texts of includes in it were resolved before. -/
  settled {i j : Inclusion} (hi : i ∈ earlier) (hj : j ∈ own) (h : j.Repeats i) {spec : String}
    {path : Path} (hspec : j.after.cache.resolved? spec = some path) :
    spec = j.spec ∨ j.before.cache.resolved? spec = some path ∨
      ∃ k ∈ earlier, k.spec = spec ∧ k.located = some path
  /-- The document includes no file under its own name. -/
  named {j : Inclusion} (hj : j ∈ own) {path : Path} (h : j.opened = some path) :
    path.text ≠ document

/-! ### Two caches -/

/-- The cache of a document on its own, and its cache when there are earlier ones. -/
structure Beside (earlier : List Inclusion) (fresh warm : IncludeCache) : Prop where
  resolved {spec : String} {path : Path} (h : fresh.resolved? spec = some path) :
    warm.resolved? spec = some path
  texts {spec : String} {path : Path} (h : warm.resolved? spec = some path) :
    fresh.resolved? spec = some path ∨ ∃ i ∈ earlier, i.spec = spec ∧ i.located = some path
  known {i : Inclusion} (hi : i ∈ earlier) {path : Path} (h : i.located = some path) :
    warm.resolved? i.spec = some path
  has {path : Path} (h : fresh.Has path) : warm.Has path
  files {path : Path} {file : IncludedFile} (h : warm.get? path = some file) :
    (∃ e, fresh.get? path = some e ∧ e.Agrees file) ∨
      ∃ i ∈ earlier, ∃ p e, i.result = .ok (p, e) ∧ p.same path ∧ IncludedFile.Agrees e file
  closed : warm.Closed

namespace Beside

variable {earlier : List Inclusion} {fresh warm : IncludeCache}

theorem empty : Beside [] .empty .empty where
  resolved h := h
  texts h := .inl h
  known hi := by cases hi
  has h := h
  files h := by cases h
  closed _ _ h := by cases h

/-- Both look for the same file and find it. -/
theorem locate {env : Env} {spec including : String} {run other found : RunState}
    {located : Option Path} (h : Beside earlier run.cache other.cache)
    (hlocated : Preprocess.locate env spec including run = (located, found))
    (htexts : ∀ i ∈ earlier, i.spec = spec → ∀ path, i.located = some path → located = some path) :
    (Preprocess.locate env spec including other).1 = located ∧
      Beside earlier found.cache (Preprocess.locate env spec including other).2.cache := by
  obtain ⟨hpath, hfound⟩ := resolved?_locate env spec including run hlocated
  obtain ⟨hpath', hfound'⟩ := resolved?_locate env spec including other (Prod.eta _).symm
  have hfresh (path : Path) : found.cache.get? path = run.cache.get? path := by
    simpa only [hlocated] using cache_locate_get? env spec including run path
  have hwarm := cache_locate_get? env spec including other
  have hsame : (Preprocess.locate env spec including other).1 = located := by
    rw [hpath']
    cases hspec : run.cache.resolved? spec with
    | some path => rw [h.resolved hspec, hpath, hspec]
    | none =>
      cases hother : other.cache.resolved? spec with
      | none => rw [hpath, hspec]
      | some path =>
        rcases h.texts hother with hrun | ⟨i, hi, his, hiq⟩
        · rw [hspec] at hrun
          cases hrun
        · rw [Option.some_or, htexts i hi his path hiq]
  rw [hsame] at hfound'
  refine ⟨hsame, ⟨fun {s p} hs => ?_, fun {s p} hs => ?_, fun {i} hi p hp => ?_, fun {p} hp => ?_,
    fun {p f} hf => ?_, fun p f hf name hname => ?_⟩⟩
  · rw [hfound] at hs
    rw [hfound']
    by_cases hspec : s = spec
    · rwa [if_pos hspec] at hs ⊢
    · rw [if_neg hspec] at hs ⊢
      exact h.resolved hs
  · rw [hfound'] at hs
    rw [hfound]
    by_cases hspec : s = spec
    · rw [if_pos hspec] at hs ⊢
      exact .inl hs
    · rw [if_neg hspec] at hs ⊢
      exact h.texts hs
  · rw [hfound']
    split
    · next hs => exact htexts i hi hs p hp
    · exact h.known hi hp
  · unfold IncludeCache.Has at hp ⊢
    rw [hfresh] at hp
    rw [hwarm]
    exact h.has hp
  · rw [hwarm] at hf
    rw [hfresh]
    exact h.files hf
  · rw [hwarm] at hf
    unfold IncludeCache.Has
    rw [hwarm]
    exact h.closed p f hf name hname

/-- Both process a file. -/
theorem insert (h : Beside earlier fresh warm) (path : Path) {e f : IncludedFile}
    (hagrees : e.Agrees f) (hincludes : ∀ name ∈ f.includes, warm.Has ⟨name⟩) :
    Beside earlier (fresh.insert path e) (warm.insert path f) where
  resolved := h.resolved
  texts := h.texts
  known := h.known
  has hp := IncludeCache.has_insert.2 ((IncludeCache.has_insert.1 hp).imp_right h.has)
  files {p k} hk := by
    rw [IncludeCache.get?_insert] at hk ⊢
    split at hk
    · next hsame =>
      cases hk
      rw [if_pos hsame]
      exact .inl ⟨e, rfl, hagrees⟩
    · next hother =>
      rw [if_neg hother]
      exact h.files hk
  closed := h.closed.insert path hincludes

/-- A file is processed that the other one has. -/
theorem process (h : Beside earlier fresh warm) {path : Path} {e file : IncludedFile}
    {left : IncludeCache} {done : List Inclusion} (hholds : Holds fresh left e.includes done)
    (hfile : warm.get? path = some file) (hagrees : e.Agrees file)
    (hresolved : ∀ spec p, left.resolved? spec = some p → warm.resolved? spec = some p) :
    Beside earlier (left.insert path e) warm where
  resolved {spec p} hs := hresolved spec p hs
  texts hs := (h.texts hs).imp_left hholds.grows.resolved
  known := h.known
  has {p} hp := by
    rcases IncludeCache.has_insert.1 hp with hsame | hp
    · exact Option.isSome_of_eq_some ((warm.get?_of_same hsame).symm.trans hfile)
    · obtain ⟨f, hf⟩ := Option.isSome_iff_exists.1 hp
      rcases hholds.new p f hf with hp | ⟨i, -, q, -, hsame, hname⟩
      · exact h.has (Option.isSome_of_eq_some hp)
      · rw [hagrees.includes] at hname
        have hhas := h.closed path file hfile q.text hname
        unfold IncludeCache.Has at hhas ⊢
        rwa [← warm.get?_of_same hsame]
  files {p f} hf := by
    rw [IncludeCache.get?_insert]
    split
    · next hsame =>
      rw [← warm.get?_of_same hsame, hfile] at hf
      cases hf
      exact .inl ⟨e, rfl, hagrees⟩
    · refine (h.files hf).imp_left ?_
      rintro ⟨k, hk, hkf⟩
      exact ⟨k, hholds.grows.files hk, hkf⟩
  closed := h.closed

/-- At its end a document joins the earlier ones. -/
theorem join (h : Beside earlier fresh warm) {env : Env} {own : List Inclusion}
    {includes : List String} (htraced : Traced env own fresh)
    (hstocked : Stocked .empty fresh includes own) : Beside (earlier ++ own) .empty warm where
  resolved hs := by cases hs
  texts {spec path} hs := by
    refine .inr ?_
    rcases h.texts hs with hs | ⟨i, hi, his⟩
    · rw [htraced.resolved] at hs
      obtain ⟨i, hi, hpath⟩ := Option.bind_eq_some_iff.1 hs
      exact ⟨i, List.mem_append_right _ (List.mem_of_find?_eq_some hi), (of_settledBy hi).1, hpath⟩
    · exact ⟨i, List.mem_append_left _ hi, his⟩
  known {i} hi path hpath := by
    rcases List.mem_append.1 hi with hi | hi
    · exact h.known hi hpath
    · exact h.resolved (htraced.located hi hpath)
  has hp := by cases hp
  files {path file} hf := by
    refine .inr ?_
    rcases h.files hf with ⟨e, he, hagrees⟩ | ⟨i, hi, hfile⟩
    · rcases hstocked path e he with he | ⟨i, hi, p, hresult, hsame, -⟩
      · cases he
      · exact ⟨i, List.mem_append_right _ hi, p, e, hresult, hsame, hagrees⟩
    · exact ⟨i, List.mem_append_left _ hi, hfile⟩
  closed := h.closed

end Beside

/-! ### Two runs -/

/-- A run of a document on its own, and one when there are earlier documents. -/
structure Abreast (env : Env) (earlier : List Inclusion) (document : String)
    (fresh warm : RunState) : Prop where
  macros : fresh.macros = warm.macros
  sources : fresh.sources = warm.sources
  diagnostics : fresh.diagnostics = warm.diagnostics
  genuine : Genuine env document fresh.sources
  foreign : ForeignCache env document fresh.cache
  caches : Beside earlier fresh.cache warm.cache

namespace Abreast

variable {env : Env} {earlier : List Inclusion} {document : String} {fresh warm : RunState}

theorem locate (h : Abreast env earlier document fresh warm) {spec including : String}
    {located : Option Path} {found : RunState}
    (hlocated : Preprocess.locate env spec including fresh = (located, found))
    (htexts : ∀ i ∈ earlier, i.spec = spec → ∀ path, i.located = some path → located = some path) :
    ∃ other, Preprocess.locate env spec including warm = (located, other) ∧
      Abreast env earlier document found other := by
  obtain ⟨hsame, hcaches⟩ := h.caches.locate hlocated htexts
  have hfound : found = (Preprocess.locate env spec including fresh).2 := by rw [hlocated]
  refine ⟨_, Prod.ext hsame rfl, ⟨?_, ?_, ?_, ?_, h.foreign.locate hlocated, hcaches⟩⟩
  · rw [hfound, macros_locate, macros_locate, h.macros]
  · rw [hfound, sources_locate, sources_locate, h.sources]
  · rw [hfound, diagnostics_locate, diagnostics_locate, h.diagnostics]
  · rw [hfound, sources_locate]
    exact h.genuine

/-- Both runs replay what they have of a file. -/
theorem replay (h : Abreast env earlier document fresh warm) {e f : IncludedFile}
    (hfile : e.Agrees f) (he : Foreign env document e.sources) :
    Abreast env earlier document
      { fresh with macros := fresh.macros.replay e.log, sources := fresh.sources.merge e.sources }
      { warm with macros := warm.macros.replay f.log, sources := warm.sources.merge f.sources } :=
  { h with
    macros := by
      show fresh.macros.replay e.log = warm.macros.replay f.log
      rw [h.macros, hfile.log]
    sources := by
      show fresh.sources.merge e.sources = warm.sources.merge f.sources
      rw [h.sources, hfile.sources]
    genuine := h.genuine.merge he }

theorem reportAll (h : Abreast env earlier document fresh warm) (diagnostics : List Diagnostic) :
    Abreast env earlier document { fresh with diagnostics := fresh.diagnostics ++ diagnostics }
      { warm with diagnostics := warm.diagnostics ++ diagnostics } :=
  { h with diagnostics := congrArg (· ++ diagnostics) h.diagnostics }

theorem enter (h : Abreast env earlier document fresh warm) {file text : String}
    (hread : file ≠ document → env.provider.read ⟨file⟩ = .ok text) :
    Abreast env earlier document (fresh.enter file text) (warm.enter file text) := by
  have hinsert : Abreast env earlier document
      { fresh with sources := fresh.sources.insert file text }
      { warm with sources := warm.sources.insert file text } :=
    { h with
      sources := congrArg (·.insert file text) h.sources
      genuine := h.genuine.insert hread }
  unfold RunState.enter
  split
  · exact hinsert.reportAll _
  · exact hinsert

end Abreast

section Open

variable {env : Env} {earlier own : List Inclusion} {document : String} {fresh warm : RunState}

/-- What two runs have opened: the same problem, or contents that agree, and they stay abreast. -/
def OpenAbreast (env : Env) (earlier : List Inclusion) (document : String)
    (a b : Except Problem IncludedFile × RunState) : Prop :=
  Abreast env earlier document a.2 b.2 ∧
    ((∃ problem, a.1 = .error problem ∧ b.1 = .error problem) ∨
      ∃ e f, a.1 = .ok e ∧ b.1 = .ok f ∧ IncludedFile.Agrees e f)

/-- Two runs over one file end abreast, with contents that agree. -/
def ProcessAbreast (env : Env) (earlier : List Inclusion) (document : String)
    (a b : IncludedFile × RunState) : Prop :=
  Abreast env earlier document a.2 b.2 ∧ a.1.Agrees b.1 ∧ a.1.symbols = b.1.symbols

/-- A run processes a file that the other one replays. -/
theorem openAbreast_of_warm {depth : Nat} {chain : List Path} {path : Path} {text : String}
    (h : Abreast env earlier document fresh warm)
    (hunread : unread env chain path fresh = some text)
    (hcourse : ∀ i ∈ course env depth (path :: chain) path.text text (fresh.reading path),
      ∀ p, i.opened = some p → p.text ≠ document)
    (hname : path.text ≠ document) {file : IncludedFile} (hfile : warm.cache.get? path = some file)
    (hagrees : (process env depth (path :: chain) path.text text (fresh.reading path)).1.Agrees file)
    (hquiet : (process env depth (path :: chain) path.text text (fresh.reading path)).2.diagnostics =
      fresh.diagnostics)
    (hresolved : ∀ spec p,
      (process env depth (path :: chain) path.text text (fresh.reading path)).2.cache.resolved? spec =
        some p → warm.cache.resolved? spec = some p) :
    OpenAbreast env earlier document (openInclude env (process env depth) chain path fresh)
      (openInclude env (process env depth) chain path warm) := by
  obtain ⟨hchain, -, hread, -⟩ := unread_eq_some env hunread
  rw [openInclude_of_unread env _ hunread, openInclude_of_cached env _ hchain hfile]
  refine ⟨?_, .inr ⟨_, _, rfl, rfl, hagrees⟩⟩
  have hlog := keepsLog_process env depth (path :: chain) path.text text (fresh.reading path)
  have hholds := (invariant_holds env).process depth (path :: chain) path.text text
    (fresh.reading path)
  obtain ⟨hgenuine, hforeign, hadded, hmerge⟩ := (invariant_sources env document).process depth
    (path :: chain) path.text text (fresh.reading path) ⟨h.genuine, h.foreign, fun _ => hread⟩
    hcourse hname
  generalize process env depth (path :: chain) path.text text (fresh.reading path) = processed at *
  obtain ⟨e, left⟩ := processed
  exact {
    macros := by
      show left.macros = warm.macros.replay file.log
      rw [← h.macros, ← hagrees.log]
      exact hlog.symm
    sources := by
      show left.sources = warm.sources.merge file.sources
      rw [← h.sources, ← hagrees.sources]
      exact hmerge
    diagnostics := hquiet.trans h.diagnostics
    genuine := hgenuine
    foreign := hforeign.insert path hadded
    caches := h.caches.process hholds hfile hagrees hresolved }

/-- Both runs process a file. -/
theorem openAbreast_of_cold {depth : Nat} {chain : List Path} {path : Path} {text : String}
    (h : Abreast env earlier document fresh warm)
    (hunread : unread env chain path fresh = some text)
    (hunread' : unread env chain path warm = some text)
    (hcourse : ∀ i ∈ course env depth (path :: chain) path.text text (fresh.reading path),
      ∀ p, i.opened = some p → p.text ≠ document)
    (hname : path.text ≠ document)
    (hprocess : ProcessAbreast env earlier document
      (process env depth (path :: chain) path.text text (fresh.reading path))
      (process env depth (path :: chain) path.text text (warm.reading path))) :
    OpenAbreast env earlier document (openInclude env (process env depth) chain path fresh)
      (openInclude env (process env depth) chain path warm) := by
  obtain ⟨habreast, hagrees, -⟩ := hprocess
  obtain ⟨-, -, hread, -⟩ := unread_eq_some env hunread
  rw [openInclude_of_unread env _ hunread, openInclude_of_unread env _ hunread']
  refine ⟨?_, .inr ⟨_, _, rfl, rfl, hagrees⟩⟩
  obtain ⟨-, -, hadded, -⟩ := (invariant_sources env document).process depth
    (path :: chain) path.text text (fresh.reading path) ⟨h.genuine, h.foreign, fun _ => hread⟩
    hcourse hname
  have hincludes := (((invariant_holds env).process depth (path :: chain) path.text text
    (warm.reading path)).closed h.caches.closed).2
  exact { habreast with
    foreign := habreast.foreign.insert path hadded
    caches := habreast.caches.insert path hagrees hincludes }

/-- Neither run has a file that cannot be processed. -/
theorem openAbreast_of_refused {nested nested' : Process} {chain : List Path} {path : Path}
    (h : Abreast env earlier document fresh warm) (hchain : ¬chain.any (·.same path))
    (hfresh : fresh.cache.get? path = none) (hwarm : warm.cache.get? path = none)
    (hunread : unread env chain path fresh = none) :
    OpenAbreast env earlier document (openInclude env nested chain path fresh)
      (openInclude env nested' chain path warm) := by
  simp only [unread, if_neg hchain, hfresh] at hunread
  simp only [openInclude, if_neg hchain, hfresh, hwarm]
  cases hread : env.provider.read path with
  | error reason => exact ⟨{ h with }, .inl ⟨_, rfl, rfl⟩⟩
  | ok text =>
    have hsize : env.options.limits.fileSize < text.utf8ByteSize := by simpa [hread] using hunread
    simp only [if_pos hsize]
    exact ⟨{ h with }, .inl ⟨_, rfl, rfl⟩⟩

/-- Two runs that are abreast stay so over a whole file. -/
def Lockstep (env : Env) (earlier : List Inclusion) (document : String) (own : List Inclusion)
    (depth : Nat) : Prop :=
  ∀ {chain : List Path} {file text : String} {fresh warm : RunState},
    (file ≠ document → env.provider.read ⟨file⟩ = .ok text) →
    Abreast env earlier document fresh warm → course env depth chain file text fresh ⊆ own →
    ProcessAbreast env earlier document (process env depth chain file text fresh)
      (process env depth chain file text warm)

/-- An include of a document on its own, which finds a file and opens it in the given state. -/
structure Opens (env : Env) (depth : Nat) (j : Inclusion) (path : Path) (found : RunState) : Prop where
  located : j.located = some path
  locate : locate env j.spec j.including j.before = (some path, found)
  result : j.result =
    (openInclude env (process env depth) j.chain path found).1.map fun file => (path, file)
  after : j.after = (openInclude env (process env depth) j.chain path found).2

/-- All texts that are resolved in a file that is processed again were resolved before. -/
theorem resolved?_of_repeats {depth : Nat} (hown : Independent earlier document own)
    (h : Beside earlier fresh.cache warm.cache) {i j : Inclusion} (hi : i ∈ earlier) (hj : j ∈ own)
    (hij : j.Repeats i) {path : Path} (hopens : Opens env depth j path fresh) {spec : String}
    {p : Path} (hextends : Extends fresh.cache j.after.cache)
    (hspec : j.after.cache.resolved? spec = some p) : warm.cache.resolved? spec = some p := by
  rcases hown.settled hi hj hij hspec with rfl | hbefore | ⟨k, hk, rfl, hkp⟩
  · have hpath : fresh.cache.resolved? j.spec = some path := by
      rw [(resolved?_locate env j.spec j.including j.before hopens.locate).2, if_pos rfl]
    cases (hextends.resolved hpath).symm.trans hspec
    exact h.resolved hpath
  · exact h.resolved ((Extends.locate hopens.locate).resolved hbefore)
  · exact h.known hk hkp

/-- A run opens a file that the other one has from an earlier document. -/
theorem openAbreast_of_repeats {depth : Nat} (hown : Independent earlier document own)
    (h : Abreast env earlier document fresh warm) {i j : Inclusion} (hi : i ∈ earlier)
    (hj : j ∈ own) (hij : j.Repeats i) {path : Path} (hopens : Opens env depth j path fresh)
    (hcourse : openCourse env (course env depth) j.chain path fresh ⊆ own)
    (hfree : ¬j.chain.any (·.same path)) {file : IncludedFile}
    (hwarm : warm.cache.get? path = some file) {p : Path} {e : IncludedFile}
    (hie : i.result = .ok (p, e)) (hagrees : e.Agrees file) :
    OpenAbreast env earlier document (openInclude env (process env depth) j.chain path fresh)
      (openInclude env (process env depth) j.chain path warm) := by
  obtain ⟨_, _, other, again, hi', hj', hagain⟩ := hown.contents hi hj hij
  cases hie.symm.trans hi'
  have hfile : again.Agrees file := hagain.symm.trans hagrees
  have hopen := hopens.result.symm.trans hj'
  have hafter := hopens.after
  rcases openInclude_cases env (process env depth) j.chain path fresh with
    ⟨problem, after, hrefused, -, -⟩ | ⟨kept, -, hkept, -⟩ | ⟨text, hunread⟩
  · simp [hrefused, Except.map] at hopen
  · rw [openInclude_of_cached env _ hfree hkept] at hopen ⊢
    rw [openInclude_of_cached env _ hfree hwarm]
    cases hopen
    exact ⟨h.replay hfile (h.foreign path again hkept), .inr ⟨_, _, rfl, rfl, hfile⟩⟩
  · rw [openInclude_of_unread env _ hunread] at hopen hafter
    simp only [openCourse, hunread] at hcourse
    cases hopen
    have hquiet := hown.quiet hi hj hij
    have hdiagnostics := diagnostics_locate env j.spec j.including j.before
    rw [hopens.locate] at hdiagnostics
    rw [hafter, ← hdiagnostics] at hquiet
    have hgrows := ((invariant_holds env).process depth (path :: j.chain) path.text text
      (fresh.reading path)).grows
    have hname : path.text ≠ document := hown.named hj (by simp only [Inclusion.opened, hj'])
    refine openAbreast_of_warm h hunread (fun k hk q hq => hown.named (hcourse hk) hq) hname hwarm
      hfile hquiet fun spec q hspec => ?_
    refine resolved?_of_repeats hown h.caches hi hj hij hopens ?_ ?_
    · rw [hafter]
      exact hgrows.insert (unread_eq_some env hunread).2.1 _
    · rw [hafter]
      exact hspec

/-- Two runs that are abreast stay so when they open a file. -/
theorem openAbreast {depth : Nat} (hown : Independent earlier document own)
    (ih : Lockstep env earlier document own depth)
    (h : Abreast env earlier document fresh warm) {path : Path} {j : Inclusion} (hj : j ∈ own)
    (hopens : Opens env depth j path fresh)
    (hcourse : openCourse env (course env depth) j.chain path fresh ⊆ own) :
    OpenAbreast env earlier document (openInclude env (process env depth) j.chain path fresh)
      (openInclude env (process env depth) j.chain path warm) := by
  by_cases hcycle : j.chain.any (·.same path)
  · rw [openInclude_of_cycle env _ hcycle, openInclude_of_cycle env _ hcycle]
    exact ⟨h, .inl ⟨_, rfl, rfl⟩⟩
  cases hwarm : warm.cache.get? path with
  | none =>
    have hfresh : fresh.cache.get? path = none := by
      cases hkept : fresh.cache.get? path with
      | none => rfl
      | some kept =>
        have hhas := h.caches.has (Option.isSome_of_eq_some hkept)
        simp [IncludeCache.Has, hwarm] at hhas
    cases hunread : unread env j.chain path fresh with
    | none => exact openAbreast_of_refused h hcycle hfresh hwarm hunread
    | some text =>
      have hunread' : unread env j.chain path warm = some text := by
        simp only [unread, hfresh, hwarm] at hunread ⊢
        exact hunread
      have hreading : Abreast env earlier document (fresh.reading path) (warm.reading path) :=
        { h with }
      have hresult := hopens.result
      simp only [openCourse, hunread] at hcourse
      simp only [openInclude_of_unread env _ hunread, Except.map] at hresult
      exact openAbreast_of_cold h hunread hunread' (fun k hk q hq => hown.named (hcourse hk) hq)
        (hown.named hj (by simp only [Inclusion.opened, hresult]))
        (ih (fun _ => (unread_eq_some env hunread).2.2.1) hreading hcourse)
  | some file =>
    rcases h.caches.files hwarm with ⟨kept, hkept, hagrees⟩ | ⟨i, hi, p, e, hie, hsame, hagrees⟩
    · rw [openInclude_of_cached env _ hcycle hkept, openInclude_of_cached env _ hcycle hwarm]
      exact ⟨h.replay hagrees (h.foreign path kept hkept), .inr ⟨_, _, rfl, rfl, hagrees⟩⟩
    · have hij : j.Repeats i :=
        ⟨p, path, by simp only [Inclusion.opened, hie], hopens.located, hsame, hcycle⟩
      exact openAbreast_of_repeats hown h hi hj hij hopens hcourse hcycle hwarm hie hagrees

end Open

/-! ### Whole files -/

section Run

variable {env : Env} {earlier own : List Inclusion} {document : String} {fresh warm : RunState}

/-- States of two runs over one file. -/
def ScanAbreast (env : Env) (earlier : List Inclusion) (document : String)
    (a b : FileState × RunState) : Prop :=
  Abreast env earlier document a.2 b.2 ∧ a.1.Agrees b.1

theorem scanAbreast_inclusion {depth : Nat} (hown : Independent earlier document own)
    (ih : ∀ less < depth, Lockstep env earlier document own less)
    (h : Abreast env earlier document fresh warm) {st st' : FileState} (hst : st.Agrees st')
    {chain : List Path} {file text spec : String} {offset : Nat}
    (hcourse : includeCourse env (levels env depth) (coursesBelow env depth) chain file spec fresh ⊆
      own) :
    ScanAbreast env earlier document
      (applyEffect env (levels env depth) chain file text st fresh (.inclusion spec offset))
      (applyEffect env (levels env depth) chain file text st' warm (.inclusion spec offset)) := by
  cases depth with
  | zero => exact ⟨h.reportAll _, hst⟩
  | succ less =>
    simp only [levels, coursesBelow, includeCourse, lookUp] at hcourse
    obtain ⟨hj, hbelow⟩ := List.cons_subset.1 hcourse
    simp only [levels, applyEffect]
    rcases hlocate : locate env spec file fresh with ⟨_ | path, found⟩
    · rw [findInclude_of_unresolved env _ hlocate] at hj ⊢
      obtain ⟨found', hlocate', hfound⟩ := h.locate hlocate fun i hi hspec path hpath =>
        absurd rfl (hown.texts hi hj hspec hpath).1
      rw [findInclude_of_unresolved env _ hlocate']
      exact ⟨hfound.reportAll _, hst⟩
    · rw [hlocate] at hj hbelow
      obtain ⟨found', hlocate', hfound⟩ := h.locate hlocate fun i hi hspec p hp =>
        congrArg some ((hown.texts hi hj hspec hp).2 path rfl)
      rw [findInclude_of_located env _ hlocate] at hj ⊢
      rw [findInclude_of_located env _ hlocate']
      have hopen := openAbreast hown (ih less less.lt_succ_self) hfound hj ⟨rfl, hlocate, rfl, rfl⟩
        hbelow
      dsimp only at hopen
      obtain ⟨hafter, hresult⟩ := hopen
      generalize openInclude env (process env less) chain path found = opened at hafter hresult ⊢
      generalize openInclude env (process env less) chain path found' = opened' at hafter hresult ⊢
      obtain ⟨result, after⟩ := opened
      obtain ⟨result', after'⟩ := opened'
      rcases hresult with ⟨problem, rfl, rfl⟩ | ⟨e, f, rfl, rfl, hagrees⟩
      · exact ⟨hafter.reportAll _, hst⟩
      · exact ⟨hafter, hst.splice path hagrees⟩

/-- An item that includes nothing does the same in both runs. -/
theorem scanAbreast_effect (h : Abreast env earlier document fresh warm) {st st' : FileState}
    (hst : st.Agrees st') (nested : Option Process) (chain : List Path) (file text : String)
    {effect : Effect} (hplain : ∀ spec offset, effect ≠ .inclusion spec offset) :
    ScanAbreast env earlier document (applyEffect env nested chain file text st fresh effect)
      (applyEffect env nested chain file text st' warm effect) := by
  refine ⟨?_, hst.applyEffect env nested nested chain chain file text fresh warm hplain⟩
  cases effect with
  | define d => exact { h with macros := congrArg (·.define d) h.macros }
  | undef name => exact { h with macros := congrArg (·.undef name) h.macros }
  | undefineAll => exact { h with macros := rfl }
  | inclusion spec offset => exact absurd rfl (hplain spec offset)
  | _ => exact h

theorem scanAbreast_scan {depth : Nat} (hown : Independent earlier document own)
    (ih : ∀ less < depth, Lockstep env earlier document own less) (chain : List Path)
    (file text : String) (tokens : List Lexeme) {st st' : FileState} {fresh warm : RunState}
    (h : Abreast env earlier document fresh warm) (hst : st.Agrees st')
    (hcourse : scanCourse env (levels env depth) (coursesBelow env depth) chain file text st fresh
      tokens ⊆ own) :
    ScanAbreast env earlier document (scan env (levels env depth) chain file text st fresh tokens)
      (scan env (levels env depth) chain file text st' warm tokens) := by
  match tokens with
  | [] =>
    simp only [scan, ← hst.conditions]
    split
    · exact ⟨h, hst⟩
    · exact ⟨h.reportAll _, hst⟩
  | t :: rest =>
    have henv : warm.expansionEnv env.options.limits = fresh.expansionEnv env.options.limits := by
      simp only [RunState.expansionEnv, h.macros, h.sources]
    rw [scanCourse] at hcourse
    rw [scan, scan, ← hst.conditions, henv]
    dsimp only at hcourse ⊢
    have hlength := Item.length_read_le (fresh.expansionEnv env.options.limits) st.conditions t rest
    generalize Item.read (fresh.expansionEnv env.options.limits) st.conditions t rest = item
      at hcourse hlength ⊢
    obtain ⟨heffect, hbehind⟩ := List.append_subset.1 hcourse
    have hstep := h.reportAll item.diagnostics
    have hafter : ScanAbreast env earlier document
        (applyEffect env (levels env depth) chain file text st
          { fresh with diagnostics := fresh.diagnostics ++ item.diagnostics } item.effect)
        (applyEffect env (levels env depth) chain file text st'
          { warm with diagnostics := warm.diagnostics ++ item.diagnostics } item.effect) := by
      rcases item.effect.inclusion_or_plain with ⟨spec, offset, hinclusion⟩ | hplain
      · rw [hinclusion] at heffect ⊢
        exact scanAbreast_inclusion hown ih hstep hst heffect
      · exact scanAbreast_effect hstep hst _ chain file text hplain
    exact scanAbreast_scan hown ih chain file text item.rest hafter.1 hafter.2 hbehind
termination_by tokens.length
decreasing_by exact Nat.lt_succ_of_le hlength

/-- A document that is independent of earlier ones is processed as on its own. The induction is on how
deep includes may still nest. -/
theorem lockstep (hown : Independent earlier document own) (depth : Nat) :
    Lockstep env earlier document own depth := by
  induction depth using Nat.strongRecOn with
  | ind depth ih =>
    intro chain file text fresh warm hread h hcourse
    rw [course_eq] at hcourse
    rw [process_eq, processFile_eq, processFile_eq]
    obtain ⟨hafter, hst⟩ := scanAbreast_scan hown ih chain file text (Lexeme.lex file text)
      (h.enter hread) (.refl {}) hcourse
    exact ⟨hafter, hst.leave file text, hst.symbols⟩

end Run

end Preprocess

end HdlIndex
