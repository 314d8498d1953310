import HdlIndex.Proofs.Macro.Table
import HdlIndex.Proofs.Preprocess.ChangeLog
import HdlIndex.Proofs.Preprocess.Holdings
import HdlIndex.Proofs.Preprocess.Replay

/-! Logs that are replayed again. Main statement: to replay a log twice is to replay it once, by its closed
form, so a header that is included again leaves the definitions as it left them before. -/

namespace HdlIndex

namespace Preprocess

/-! ### Headers that are included again -/

section Inclusion

variable {env : Env} {depth : Nat} {chain : List Path} {including spec : String} {path : Path}
  {file : IncludedFile} {run after : RunState}

/-- What an include does that opens a file: it finds the file and opens it. -/
theorem exists_of_findInclude {nested : Process}
    (h : findInclude env (some nested) chain including spec run = (.ok (path, file), after)) :
    ∃ found, locate env spec including run = (some path, found) ∧
      openInclude env nested chain path found = (.ok file, after) := by
  rcases hlocated : locate env spec including run with ⟨_ | p, found⟩
  · rw [findInclude_of_unresolved env _ hlocated] at h
    cases h
  · rw [findInclude_of_located env _ hlocated] at h
    rcases hopened : openInclude env nested chain p found with ⟨_ | opened, last⟩
    · rw [hopened] at h
      cases h
    · rw [hopened] at h
      cases h
      exact ⟨found, rfl, hopened⟩

/-- An include of a file that has to be processed opens it. -/
theorem exists_findInclude_of_unread (nested : Process) {found : RunState} {text : String}
    (hlocated : locate env spec including run = (some path, found))
    (hunread : unread env chain path found = some text) :
    ∃ file after, findInclude env (some nested) chain including spec run =
      (.ok (path, file), after) := by
  rw [findInclude_of_located env nested hlocated, openInclude_of_unread env nested hunread]
  exact ⟨_, _, rfl⟩

theorem apart_of_openInclude {nested : Process}
    (h : openInclude env nested chain path run = (.ok file, after)) :
    ¬chain.any (·.same path) := by
  intro hchain
  rw [openInclude_of_cycle env _ hchain] at h
  cases h

/-- A file that was opened is in the cache, and nothing has gone from it. -/
theorem kept_of_openInclude (h : openInclude env (process env depth) chain path run = (.ok file, after)) :
    after.cache.get? path = some file ∧ Extends run.cache after.cache := by
  rcases openInclude_cases env (process env depth) chain path run with
    ⟨_, _, herror, -⟩ | ⟨cached, hchain, hcache, -⟩ | ⟨text, htext⟩
  · rw [herror] at h
    cases h
  · rw [openInclude_of_cached env _ hchain hcache] at h
    cases h
    exact ⟨hcache, .refl _⟩
  · obtain ⟨-, hnew, -, -⟩ := unread_eq_some env htext
    rw [openInclude_of_unread env _ htext] at h
    cases h
    have hgrows := ((invariant_holds env).process depth (path :: chain) path.text text
      (run.reading path)).grows
    refine ⟨?_, hgrows.insert hnew _⟩
    rw [IncludeCache.get?_insert, if_pos (Path.same_refl path)]

/-- A file that is in the cache is replayed. -/
theorem macros_of_kept {nested : Process} {kept : IncludedFile} {p : Path} (hsame : p.same path)
    (hkept : run.cache.get? path = some kept)
    (h : findInclude env (some nested) chain including spec run = (.ok (p, file), after)) :
    after.macros = run.macros.replay kept.log := by
  obtain ⟨found, hlocated, hopened⟩ := exists_of_findInclude h
  have hmacros := macros_locate env spec including run
  have hcache := cache_locate_get? env spec including run p
  rw [hlocated] at hmacros hcache
  rw [IncludeCache.get?_of_same _ hsame, IncludeCache.get?_of_same _ hsame, hkept,
    ← IncludeCache.get?_of_same _ hsame] at hcache
  rw [openInclude_of_cached env _ (apart_of_openInclude hopened) hcache] at hopened
  cases hopened
  exact congrArg (·.replay file.log) hmacros

end Inclusion

/-- To replay a log again changes nothing, whatever the table: definitions and their order stay. So a
header that has been included can be included again at once, and whenever it is included again, by any
text and in any file, on the table that it left and while it is in the cache, it leaves that table. -/
theorem replay_again_and_include_again :
    (∀ (t : MacroTable) (log : MacroLog), (t.replay log).replay log = t.replay log) ∧
    ∀ {env : Env} {depth : Nat} {chain : List Path} {including spec : String} {run after : RunState}
      {path : Path} {file : IncludedFile},
      findInclude env (some (process env depth)) chain including spec run = (.ok (path, file), after) →
      (∃ again, findInclude env (some (process env depth)) chain including spec after =
          (.ok (path, file), again)) ∧
      ∀ {nested : Process} {chain' : List Path} {including' spec' : String} {later again : RunState}
        {path' : Path} {file' : IncludedFile}, later.macros = after.macros →
        later.cache.get? path = after.cache.get? path →
        findInclude env (some nested) chain' including' spec' later = (.ok (path', file'), again) →
        path'.same path → again.macros = after.macros := by
  refine ⟨MacroTable.replay_replay, fun {env depth chain including spec run after path file} h => ?_⟩
  have hkeeps : ∀ nested ∈ some (process env depth), KeepsLog nested := by
    simpa using keepsLog_process env depth
  have hlog := macros_findInclude env hkeeps chain including spec run
  rw [h] at hlog
  obtain ⟨found, hlocated, hopened⟩ := exists_of_findInclude h
  obtain ⟨hkept, hgrows⟩ := kept_of_openInclude hopened
  refine ⟨?_, fun hmacros hcache hagain hsame => ?_⟩
  · have hresolved := (resolved?_locate env spec including run hlocated).2 spec
    rw [if_pos rfl] at hresolved
    have hlocated' : locate env spec including after = (some path, after) := by
      rw [locate, hgrows.resolved hresolved]
    rw [findInclude_of_located env _ hlocated',
      openInclude_of_cached env _ (apart_of_openInclude hopened) hkept]
    exact ⟨_, rfl⟩
  · calc _ = _ := macros_of_kept hsame (hcache.trans hkept) hagain
      _ = (run.macros.replay file.log).replay file.log := by rw [hmacros, hlog]
      _ = after.macros := by rw [MacroTable.replay_replay, hlog]

/-- The outer header deletes `B` and defines `A`, and is included twice in a row. -/
theorem include_again_twoHeaders :
    let run : RunState := { cache := .empty, macros := ⟨[.user "B" []]⟩ }
    ∃ file after again,
      findInclude twoHeaders (some (process twoHeaders 1)) [] "/top" "/h" run =
        (.ok (⟨"/h"⟩, file), after) ∧
      findInclude twoHeaders (some (process twoHeaders 1)) [] "/top" "/h" after =
        (.ok (⟨"/h"⟩, file), again) ∧
      again.macros = after.macros := by
  intro run
  have hresolve : (locate twoHeaders "/h" "/top" run).1 = some ⟨"/h"⟩ := by decide
  have hlocated : locate twoHeaders "/h" "/top" run =
      (some ⟨"/h"⟩, (locate twoHeaders "/h" "/top" run).2) := by rw [← hresolve]
  have hunread : unread twoHeaders [] ⟨"/h"⟩ (locate twoHeaders "/h" "/top" run).2 =
      some "`define A x\n`include </g>" := by rfl
  obtain ⟨file, after, hfirst⟩ :=
    exists_findInclude_of_unread (process twoHeaders 1) hlocated hunread
  obtain ⟨⟨again, hagain⟩, hleft⟩ := replay_again_and_include_again.2 hfirst
  exact ⟨file, after, again, hfirst, hagain, hleft rfl rfl hagain (Path.same_refl _)⟩

end Preprocess

end HdlIndex
