import HdlIndex.Command.Report
import HdlIndex.Proofs.Preprocess.Abreast

/-! Documents that share a cache. Main statement: documents that are read one after another in one
session have the outlines that each has in a session of its own, if each is independent of those
before it. So a batch of files has the same report either way. Without the condition a document may
depend on those before it. -/

namespace HdlIndex

namespace Preprocess

/-! ### Documents -/

theorem stocked_documentCourse (env : Env) (file text : String) :
    ∃ includes, Stocked .empty (document env .empty file text).2.cache includes
      (documentCourse env .empty file text) := by
  by_cases hsize : env.options.limits.fileSize < text.utf8ByteSize
  · refine ⟨[], fun path e he => .inl ?_⟩
    simp only [document, if_pos hsize] at he
    exact he
  · simp only [documentCourse, document, if_neg hsize]
    exact ⟨_, ((invariant_holds env).process _ _ _ _ (startState env .empty)).new⟩

/-- A cache that earlier documents have filled makes no difference to a document that is independent
of them, and the document joins them. -/
theorem document_of_independent {env : Env} {earlier : List Inclusion} {cache : IncludeCache}
    (h : Beside earlier .empty cache) {file text : String}
    (hown : Independent earlier file (documentCourse env .empty file text)) :
    (document env cache file text).1 = (document env .empty file text).1 ∧
      Beside (earlier ++ documentCourse env .empty file text) .empty
        (document env cache file text).2.cache := by
  have htraced := traced_documentCourse env file text
  obtain ⟨includes, hstocked⟩ := stocked_documentCourse env file text
  by_cases hsize : env.options.limits.fileSize < text.utf8ByteSize
  · simp only [document, if_pos hsize] at htraced hstocked ⊢
    exact ⟨rfl, h.join htraced hstocked⟩
  · have hstart : Abreast env earlier file (startState env .empty) (startState env cache) :=
      ⟨rfl, rfl, rfl, fun _ _ hs => (by cases hs), fun _ _ hf => (by cases hf), h⟩
    have hcourse : course env env.options.limits.includeDepth [Path.normalize ⟨file⟩] file text
        (startState env .empty) ⊆ documentCourse env .empty file text := by
      rw [documentCourse, if_neg hsize]
      exact List.Subset.refl _
    obtain ⟨habreast, hagrees, hsymbols⟩ := lockstep hown env.options.limits.includeDepth
      (fun hname => absurd rfl hname) hstart hcourse
    simp only [document, if_neg hsize] at htraced hstocked ⊢
    refine ⟨?_, habreast.caches.join htraced hstocked⟩
    simp only [hagrees.stream, hagrees.includes, hsymbols, habreast.macros, habreast.sources,
      habreast.diagnostics]

/-- Whether each document is independent of those before it. -/
def Undisturbed (env : Env) (earlier : List Inclusion) : List (String × String) → Prop
  | [] => True
  | d :: documents =>
    Independent earlier d.1 (documentCourse env .empty d.1 d.2) ∧
      Undisturbed env (earlier ++ documentCourse env .empty d.1 d.2) documents

/-! ### A test -/

theorem Inclusion.result_of_opened {i : Inclusion} {path : Path} (h : i.opened = some path) :
    ∃ file, i.result = .ok (path, file) := by
  unfold Inclusion.opened at h
  split at h
  · next p file hresult =>
    cases h
    exact ⟨file, hresult⟩
  · cases h

/-- What an include finds. -/
def Inclusion.contents (i : Inclusion) : Option (TokenStream × List String × Sources × MacroLog) :=
  match i.result with
  | .ok (_, file) => some (file.stream, file.includes, file.sources, file.log)
  | .error _ => none

theorem Inclusion.result_of_contents {i : Inclusion}
    {contents : TokenStream × List String × Sources × MacroLog} (h : i.contents = some contents) :
    ∃ path file, i.result = .ok (path, file) ∧
      contents = (file.stream, file.includes, file.sources, file.log) := by
  unfold Inclusion.contents at h
  split at h
  · next path file hresult => exact ⟨path, file, hresult, (Option.some.inj h).symm⟩
  · cases h

theorem Inclusion.Matches.of_contents {i j : Inclusion} {path : Path}
    (hopened : i.opened = some path) (h : j.contents = i.contents) : j.Matches i := by
  obtain ⟨file, hfile⟩ := Inclusion.result_of_opened hopened
  simp only [Inclusion.contents, hfile] at h
  obtain ⟨other, again, hagain, hequal⟩ := Inclusion.result_of_contents h
  simp only [Prod.mk.injEq] at hequal
  obtain ⟨hstream, hincludes, hsources, hlog⟩ := hequal
  exact ⟨path, file, other, again, hfile, hagain, hstream, hincludes, hsources, hlog ▸ .refl _⟩

/-- A test for documents that are independent: nothing is left unresolved or in progress, and logs are
compared as they are written. -/
def Inclusion.fits (earlier : List Inclusion) (document : String) (j : Inclusion) : Bool :=
  decide (j.opened ≠ some ⟨document⟩) && earlier.all fun i =>
    decide (i.spec = j.spec → j.contents.isSome ∧ j.located = i.located) &&
      (!(i.opened.any fun path => j.located.any path.same) ||
        decide (j.contents = i.contents) && decide (j.after.diagnostics = j.before.diagnostics) &&
          j.after.cache.resolved.all fun e => decide (e.1 = j.spec) ||
            earlier.any fun k => decide (k.spec = e.1 ∧ k.located = some e.2))

theorem Independent.of_fits {earlier own : List Inclusion} {document : String}
    (h : own.all (·.fits earlier document)) : Independent earlier document own := by
  simp only [Inclusion.fits, List.all_eq_true, List.any_eq_true, Bool.and_eq_true, Bool.or_eq_true,
    Bool.not_eq_true', decide_eq_true_eq] at h
  have hany {i j : Inclusion} (hij : j.Repeats i) :
      ¬(i.opened.any fun path => j.located.any path.same) = false := by
    obtain ⟨path, other, hopened, hlocated, hsame, -⟩ := hij
    simp [hopened, hlocated, hsame]
  have hrepeats {i j : Inclusion} (hi : i ∈ earlier) (hj : j ∈ own) (hij : j.Repeats i) :=
    ((h j hj).2 i hi).2.resolve_left (hany hij)
  refine ⟨fun {i j} hi hj hspec path hpath => ?_, fun {i j} hi hj hij => ?_,
    fun hi hj hij => (hrepeats hi hj hij).1.2, fun {i j} hi hj hij spec path hspec => ?_,
    fun {j} hj path hpath hname => (h j hj).1 (hpath.trans (congrArg _ ?_))⟩
  · obtain ⟨hsome, hlocated⟩ := ((h j hj).2 i hi).1 hspec
    obtain ⟨contents, hcontents⟩ := Option.isSome_iff_exists.1 hsome
    obtain ⟨p, file, hresult, -⟩ := Inclusion.result_of_contents hcontents
    refine ⟨by simp [hresult], fun other hother => ?_⟩
    rw [hlocated, hpath] at hother
    exact (Option.some.inj hother).symm
  · have ⟨path, _, hopened, _⟩ := hij
    exact .of_contents hopened (hrepeats hi hj hij).1.1
  · obtain ⟨front, back, hresolved, -⟩ := List.lookup_eq_some_iff.1 hspec
    refine ((hrepeats hi hj hij).2 (spec, path) ?_).imp_right .inr
    rw [hresolved]
    exact List.mem_append_right _ List.mem_cons_self
  · rw [← hname]

end Preprocess

namespace Session

open Preprocess (Inclusion documentCourse Independent Beside Undisturbed)

/-- The outlines of documents that are read one after another. -/
def outlines (s : Session) : List (String × String) → List Outline
  | [] => []
  | d :: documents => (s.outline d.1 d.2).1 :: outlines (s.outline d.1 d.2).2 documents

/-- A session like this one in which nothing was read. -/
def renewed (s : Session) : Session := { options := s.options, provider := s.provider }

/-- A document that is independent of those before it has the outline that it has on its own. -/
theorem outline_of_independent {s : Session} {earlier : List Inclusion}
    (h : Beside earlier .empty s.cache) {file text : String}
    (hown : Independent earlier file (documentCourse s.env .empty file text)) :
    (s.outline file text).1 = (s.renewed.outline file text).1 ∧
      Beside (earlier ++ documentCourse s.env .empty file text) .empty
        (s.outline file text).2.cache := by
  obtain ⟨hdocument, hcache⟩ := Preprocess.document_of_independent h hown
  refine ⟨?_, hcache⟩
  show (Outline.read (Preprocess.document s.env s.cache file text).1 _ _).1 = _
  rw [hdocument]
  rfl

theorem outlines_of_undisturbed {s : Session} {earlier : List Inclusion}
    (h : Beside earlier .empty s.cache) {documents : List (String × String)}
    (hdocuments : Undisturbed s.env earlier documents) :
    s.outlines documents = documents.map fun d => (s.renewed.outline d.1 d.2).1 := by
  induction documents generalizing s earlier with
  | nil => rfl
  | cons d documents ih =>
    obtain ⟨hown, hrest⟩ := hdocuments
    obtain ⟨houtline, hcache⟩ := outline_of_independent h hown
    have hbehind := ih (s := (s.outline d.1 d.2).2) hcache hrest
    rw [outlines, List.map_cons, houtline, hbehind]
    rfl

/-- Documents that are read one after another in one session have the outlines that each has in a
session of its own, if each is independent of those before it. -/
theorem outlines_eq_map_outline (options : Options) (provider : Provider)
    (documents : List (String × String)) (h : Undisturbed ⟨provider, options⟩ [] documents) :
    outlines { options, provider } documents =
      documents.map fun d => (outline { options, provider } d.1 d.2).1 :=
  outlines_of_undisturbed .empty h

/-- A session with a file to include that makes a definition and includes another one. -/
def nested : Session where
  options := {}
  provider := (Files.ofList [(⟨"/g"⟩, "y"), (⟨"/h"⟩, "`define A x\n`include </g>")]).provider

set_option maxRecDepth 100000 in
theorem fits_nested :
    (documentCourse nested.env .empty "/a" "`include </h>").all (·.fits [] "/a") ∧
      (documentCourse nested.env .empty "/b" "`A`include </h>`A").all
        (·.fits (documentCourse nested.env .empty "/a" "`include </h>") "/b") := by
  decide +kernel

theorem undisturbed_nested :
    Undisturbed nested.env [] [("/a", "`include </h>"), ("/b", "`A`include </h>`A")] := by
  refine ⟨.of_fits fits_nested.1, ?_, trivial⟩
  rw [List.nil_append]
  exact .of_fits fits_nested.2

/-- The second document takes both files from the cache, and the definition with them. -/
theorem outlines_eq_map_outline_nested :
    Undisturbed nested.env [] [("/a", "`include </h>"), ("/b", "`A`include </h>`A")] ∧
      nested.outlines [("/a", "`include </h>"), ("/b", "`A`include </h>`A")] =
        [("/a", "`include </h>"), ("/b", "`A`include </h>`A")].map fun d =>
          (nested.outline d.1 d.2).1 :=
  ⟨undisturbed_nested, outlines_eq_map_outline _ _ _ undisturbed_nested⟩

/-- A session with a file to include that includes another one on a condition. -/
def conditional : Session where
  options := {}
  provider :=
    (Files.ofList [(⟨"/g"⟩, "y"), (⟨"/h"⟩, "`ifdef X\n`include </g>\n`endif")]).provider

set_option maxRecDepth 100000 in
/-- A document may depend on those before it: here the condition holds in the first one, and the
second one takes over what was included there. -/
theorem outlines_ne_map_outline :
    (conditional.outlines [("/a", "`define X\n`include </h>"), ("/b", "`include </h>")]).map
        (·.symbols.includes) = [["/h", "/g"], ["/h", "/g"]] ∧
      (conditional.outline "/b" "`include </h>").1.symbols.includes = ["/h"] := by
  decide +kernel

end Session

namespace Command.Report

open Preprocess (Inclusion Beside Undisturbed)

/-- The files that can be read, with their texts. -/
def readable (disk : Disk) (limit : Nat) (paths : List Path) : List (String × String) :=
  paths.filterMap fun path => (readSource disk path limit).toOption.map fun text => (path.text, text)

theorem sequential_of_undisturbed {disk : Disk} {s : Session} {earlier : List Inclusion}
    (h : Beside earlier .empty s.cache) {paths : List Path}
    (hpaths : Undisturbed s.env earlier (readable disk s.options.limits.fileSize paths)) :
    (sequential disk s paths).1 = paths.map fun path => (FileReport.make disk s.renewed path).1 := by
  induction paths generalizing s earlier with
  | nil => rfl
  | cons path paths ih =>
    rw [sequential, List.map_cons]
    cases hread : readSource disk path s.options.limits.fileSize with
    | error failure =>
      have hsame : FileReport.make disk s path = (⟨path.text, .error failure⟩, s) := by
        simp only [FileReport.make, hread]
      have hrenewed : (FileReport.make disk s.renewed path).1 = ⟨path.text, .error failure⟩ := by
        simp only [FileReport.make, Session.renewed, hread]
      rw [readable, List.filterMap_cons_none (by simp [hread, Except.toOption])] at hpaths
      simp only [hsame, hrenewed]
      rw [ih h hpaths]
    | ok text =>
      rw [readable, List.filterMap_cons_some (b := (path.text, text))
        (by simp [hread, Except.toOption])] at hpaths
      obtain ⟨hown, hrest⟩ := hpaths
      obtain ⟨houtline, hcache⟩ := Session.outline_of_independent h hown
      have hbehind := ih (s := (s.outline path.text text).2) hcache hrest
      have hsame : FileReport.make disk s path =
          (⟨path.text, .ok (s.outline path.text text).1⟩, (s.outline path.text text).2) := by
        simp only [FileReport.make, hread]
      have hrenewed : (FileReport.make disk s.renewed path).1 =
          ⟨path.text, .ok (s.outline path.text text).1⟩ := by
        rw [houtline]
        simp only [FileReport.make, Session.renewed, hread]
      simp only [hsame, hrenewed, hbehind]
      rfl

/-- The report on files is the same whether they are read in one session or each in a session of its
own, if each is independent of those before it. -/
theorem make_of_undisturbed (disk : Disk) (options : Options) (paths : List Path)
    (h : Undisturbed ⟨disk.provider, options⟩ []
      (readable disk options.limits.fileSize paths)) :
    (make disk options false paths).1 = (make disk options true paths).1 := by
  have hfiles : (sequential disk { options, provider := disk.provider } paths).1 = _ :=
    sequential_of_undisturbed .empty h
  simp only [make, separate, Bool.false_eq_true, if_false, if_true, List.map_map]
  rw [hfiles]
  rfl

end Command.Report

end HdlIndex
