import HdlIndex.Preprocess.Run

/-! The log of a file against the table of definitions. Directives change the table at once and
are noted in the log separately; the log of an included file is spliced in, whether the file was
processed or came from the cache. Main statement: to replay the log of a file on the table that
its processing started with gives the table that it ended with. -/

namespace HdlIndex

namespace MacroTable

theorem undef_undef (t : MacroTable) (name : String) :
    (t.undef name).undef name = t.undef name := by
  simp [undef, List.filter_filter]

/-- To delete a name first makes no difference to its definition. -/
theorem define_undef (t : MacroTable) (d : MacroDef) : (t.undef d.name).define d = t.define d := by
  simp only [define, undef_undef]

end MacroTable

namespace Preprocess

/-- The log of a file leads from the table at its start to the table that is in force. -/
def Recorded (start : MacroTable) (st : FileState) (run : RunState) : Prop :=
  start.replay st.log = run.macros

/-- A process whose results come with a log of all that it does to the table. -/
def KeepsLog (process : Process) : Prop :=
  ∀ chain file text run,
    run.macros.replay (process chain file text run).1.log = (process chain file text run).2.macros

/-! ### Includes -/

theorem macros_locate (env : Env) (spec including : String) (run : RunState) :
    (locate env spec including run).2.macros = run.macros := by
  unfold locate
  split
  · rfl
  · split <;> rfl

/-- A file that is opened has the log of what happened to the table, and a file that is not opened
has changed nothing. -/
theorem macros_openInclude (env : Env) {nested : Process} (h : KeepsLog nested)
    (chain : List Path) (path : Path) (run : RunState) :
    (openInclude env nested chain path run).2.macros =
      match (openInclude env nested chain path run).1 with
      | .error _ => run.macros
      | .ok file => run.macros.replay file.log := by
  unfold openInclude
  split
  · rfl
  · cases run.cache.get? path with
    | some file => rfl
    | none =>
      cases env.provider.read path with
      | error reason => rfl
      | ok text =>
        dsimp only
        split
        · rfl
        · exact (h (path :: chain) path.text text _).symm

theorem macros_findInclude (env : Env) {nested : Option Process}
    (h : ∀ process ∈ nested, KeepsLog process) (chain : List Path) (including spec : String)
    (run : RunState) :
    (findInclude env nested chain including spec run).2.macros =
      match (findInclude env nested chain including spec run).1 with
      | .error _ => run.macros
      | .ok (_, file) => run.macros.replay file.log := by
  cases nested with
  | none => rfl
  | some nested =>
    have hl := macros_locate env spec including run
    simp only [findInclude]
    rcases hloc : locate env spec including run with ⟨_ | path, located⟩
    · rw [hloc] at hl
      exact hl
    · rw [hloc] at hl
      have ho := macros_openInclude env (h nested rfl) chain path located
      dsimp only
      rcases hopen : openInclude env nested chain path located with ⟨_ | file, opened⟩
      · rw [hopen] at ho
        exact ho.trans hl
      · rw [hopen] at ho
        exact ho.trans (congrArg (·.replay file.log) hl)

/-! ### Effects -/

/-- Whatever an item does to the table is noted in the log. -/
theorem recorded_applyEffect (env : Env) {nested : Option Process}
    (hn : ∀ process ∈ nested, KeepsLog process) (chain : List Path) (file text : String)
    {start : MacroTable} {st : FileState} {run : RunState} (h : Recorded start st run)
    (effect : Effect) :
    Recorded start (applyEffect env nested chain file text st run effect).1
      (applyEffect env nested chain file text st run effect).2 := by
  unfold Recorded at h ⊢
  cases effect with
  | nothing => exact h
  | emit t => exact h
  | expansion tokens => exact h
  | conditions taken => exact h
  | define d =>
    simp only [applyEffect]
    rw [MacroTable.replay_append, MacroTable.replay_append, h]
    split
    · exact MacroTable.define_undef run.macros d
    · rfl
  | undef name =>
    simp only [applyEffect]
    rw [MacroTable.replay_append, h]
    rfl
  | undefineAll =>
    simp only [applyEffect]
    rw [MacroTable.replay_append]
    rfl
  | inclusion spec offset =>
    have hf := macros_findInclude env hn chain file spec run
    simp only [applyEffect]
    rcases hfound : findInclude env nested chain file spec run with ⟨_ | ⟨path, found⟩, after⟩
    · rw [hfound] at hf
      exact h.trans hf.symm
    · rw [hfound] at hf
      show start.replay (st.log ++ found.log) = after.macros
      rw [MacroTable.replay_append, h]
      exact hf.symm

/-! ### Files -/

theorem recorded_scan {env : Env} {nested : Option Process}
    (hn : ∀ process ∈ nested, KeepsLog process) (chain : List Path) (file text : String)
    {start : MacroTable} (st : FileState) (run : RunState) (tokens : List Lexeme)
    (h : Recorded start st run) :
    Recorded start (scan env nested chain file text st run tokens).1
      (scan env nested chain file text st run tokens).2 := by
  fun_induction scan env nested chain file text st run tokens with
  | case1 st run hc => exact h
  | case2 st run hc => exact h
  | case3 st run t rest item before after run' heq ih =>
    apply ih
    have hbefore : Recorded start st before := h
    have step := recorded_applyEffect env hn chain file text hbefore item.effect
    rw [heq] at step
    exact step

theorem keepsLog_processFile {env : Env} {nested : Option Process}
    (hn : ∀ process ∈ nested, KeepsLog process) : KeepsLog (processFile env nested) := by
  intro chain file text run
  apply recorded_scan hn
  -- The text of the file and a complaint about its tokens do not touch the table.
  show run.macros = _
  split <;> rfl

theorem keepsLog_process (env : Env) (depth : Nat) : KeepsLog (process env depth) := by
  induction depth with
  | zero => exact keepsLog_processFile (by simp)
  | succ depth ih =>
    refine keepsLog_processFile ?_
    intro process hp
    cases hp
    exact ih

/-- The log of a file is faithful: replayed on the table that the file found, it gives the table
that the file left, definitions and their order alike. Nothing is assumed of the source of files,
the options, the cache, the table or how deep includes may nest. -/
theorem replay_process_log (env : Env) (depth : Nat) (chain : List Path) (file text : String)
    (run : RunState) :
    run.macros.replay (process env depth chain file text run).1.log =
      (process env depth chain file text run).2.macros :=
  keepsLog_process env depth chain file text run

end Preprocess

end HdlIndex
