import HdlIndex.Proofs.Preprocess.ChangeLog

/-! Included files that stand for one another. Two logs of edits may differ and still lead to the same
tables: what is deleted before a definition depends on what was defined. Files that agree in
everything but the wording of their logs can take each other's place in whatever includes them. -/

namespace HdlIndex

namespace MacroLog

/-- Logs that lead from each table to the same one. -/
def Equivalent (a b : MacroLog) : Prop := ∀ t : MacroTable, t.replay a = t.replay b

namespace Equivalent

variable {a b c a' b' : MacroLog}

theorem refl (a : MacroLog) : Equivalent a a := fun _ => rfl

theorem symm (h : Equivalent a b) : Equivalent b a := fun t => (h t).symm

theorem trans (h : Equivalent a b) (h' : Equivalent b c) : Equivalent a c := fun t =>
  (h t).trans (h' t)

theorem append (h : Equivalent a b) (h' : Equivalent a' b') :
    Equivalent (a ++ a') (b ++ b') := by
  intro t
  rw [MacroTable.replay_append, MacroTable.replay_append, h t, h']

/-- It makes no difference whether a definition is deleted before it is replaced. -/
theorem define (d : MacroDef) (deletes : Bool) :
    Equivalent ((if deletes then [.delete d.name] else []) ++ [.add d]) [.add d] := by
  intro t
  cases deletes with
  | false => rfl
  | true => exact t.define_undef d

end Equivalent

end MacroLog

/-- Included files that can take each other's place. -/
structure IncludedFile.Agrees (a b : IncludedFile) : Prop where
  stream : a.stream = b.stream
  includes : a.includes = b.includes
  sources : a.sources = b.sources
  log : MacroLog.Equivalent a.log b.log

namespace IncludedFile.Agrees

variable {a b c : IncludedFile}

theorem symm (h : Agrees a b) : Agrees b a :=
  ⟨h.stream.symm, h.includes.symm, h.sources.symm, h.log.symm⟩

theorem trans (h : Agrees a b) (h' : Agrees b c) : Agrees a c :=
  ⟨h.stream.trans h'.stream, h.includes.trans h'.includes, h.sources.trans h'.sources,
    h.log.trans h'.log⟩

end IncludedFile.Agrees

namespace Preprocess

/-- States of one file that differ at most in the wording of the log. -/
structure FileState.Agrees (a b : FileState) : Prop where
  out : a.out = b.out
  symbols : a.symbols = b.symbols
  includes : a.includes = b.includes
  sources : a.sources = b.sources
  conditions : a.conditions = b.conditions
  log : MacroLog.Equivalent a.log b.log

namespace FileState.Agrees

variable {a b : FileState}

theorem refl (a : FileState) : Agrees a a := ⟨rfl, rfl, rfl, rfl, rfl, .refl _⟩

theorem splice (h : Agrees a b) (path : Path) {e f : IncludedFile} (hfile : e.Agrees f) :
    Agrees (a.splice path e) (b.splice path f) where
  out := by simp only [FileState.splice, h.out, hfile.stream]
  symbols := h.symbols
  includes := by simp only [FileState.splice, h.includes, hfile.includes]
  sources := by simp only [FileState.splice, h.sources, hfile.sources]
  conditions := h.conditions
  log := h.log.append hfile.log

/-- Whatever an item does apart from includes, it does to both. -/
theorem applyEffect (h : Agrees a b) (env : Env) (nested nested' : Option Process)
    (chain chain' : List Path) (file text : String) (run run' : RunState) {effect : Effect}
    (hplain : ∀ spec offset, effect ≠ .inclusion spec offset) :
    Agrees (Preprocess.applyEffect env nested chain file text a run effect).1
      (Preprocess.applyEffect env nested' chain' file text b run' effect).1 := by
  cases effect with
  | nothing => exact h
  | emit t => exact { h with out := by simp only [Preprocess.applyEffect, h.out] }
  | expansion tokens => exact { h with out := by simp only [Preprocess.applyEffect, h.out] }
  | conditions taken => exact { h with conditions := rfl }
  | define d =>
    refine { h with symbols := by simp only [Preprocess.applyEffect, h.symbols], log := ?_ }
    simp only [Preprocess.applyEffect, List.append_assoc]
    exact h.log.append ((MacroLog.Equivalent.define d _).trans (MacroLog.Equivalent.define d _).symm)
  | undef name => exact { h with log := h.log.append (.refl _) }
  | undefineAll => exact { h with log := h.log.append (.refl _) }
  | inclusion spec offset => exact absurd rfl (hplain spec offset)

/-- Files that agree to their end agree as included files. -/
theorem leave (h : Agrees a b) (file text : String) :
    IncludedFile.Agrees
      ⟨a.symbols, a.out.stream, a.includes, a.log, a.sources.insert file text⟩
      ⟨b.symbols, b.out.stream, b.includes, b.log, b.sources.insert file text⟩ where
  stream := congrArg Emitter.stream h.out
  includes := h.includes
  sources := congrArg (·.insert file text) h.sources
  log := h.log

end FileState.Agrees

end Preprocess

end HdlIndex
